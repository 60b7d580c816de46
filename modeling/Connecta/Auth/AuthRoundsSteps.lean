import Connecta.Auth.AuthRoundsRuns

/-!
# Steps of authorization rounds

Every step keeps the invariant: a process that claimed its link and rechecked its
reads starts one operation, and an attempt that prompts again hands on the reads it
was resumed with.
-/

namespace Connecta.Auth

open Connecta.Runtime
open Connecta.Transition
open Connecta.Foundation (OrderedMap)
open Connecta.Inputs (MAX_INPUT_ROUNDS REQUEST_STATE_TTL_MS)

section

variable {sha256 : List ℕ → Option JsString} {deployment later : Deployment}
variable {outputs emitted : List Started} {process : ℕ}

/-! ## Starting the operation -/

theorem MintedSound.append {now : ℕ} {minted : Minted} {started : Started}
    (hsound : MintedSound sha256 now outputs minted)
    (hother : started.process ≠ minted.process) :
    MintedSound sha256 now (outputs ++ [started]) minted := by
  have hresumed := resumed_append_of_ne outputs hother
  refine ⟨?_, ?_, hsound.round, hsound.window⟩
  · rw [hresumed]
    exact hsound.made
  · rw [hresumed]
    exact hsound.carries

/-- What is bound for a retry are the reads of its state. -/
theorem Accepted.bound (hcoherent : Coherent sha256 deployment outputs) {request : Request}
    {state : AuthRequestState} (haccepted : Accepted deployment request state)
    {found : ReplayRead} (hfound : found ∈ state.reads) :
    (bindReplayReads .empty state.reads).retryReads.get? found.address =
      some found.digest := by
  obtain ⟨minted, hminted, rfl⟩ := haccepted.minted
  have hnodup := (hcoherent.minted minted hminted).reads_nodup
  refine get?_mapOf (fun entry hentry haddress => ?_) (List.mem_map_of_mem hfound)
  obtain ⟨other, hother, rfl⟩ := List.mem_map.mp hentry
  rw [List.inj_on_of_nodup_map hnodup hother hfound haddress]

/-- A process that rechecked every read starts its operation. -/
theorem Coherent.start (hcoherent : Coherent sha256 deployment outputs) {request : Request}
    {state : AuthRequestState} {checked : List (ReplayRead × Option Target)}
    (hphase : deployment.phase process = .rechecking request state checked []) :
    Coherent sha256 (deployment.move process (.running request (some state)
        (bindReplayReads .empty state.reads)))
      (outputs ++ [⟨process, request, state, checked, deployment.now⟩]) := by
  have hsound := hcoherent.phases process
  have hfresh := hcoherent.fresh process state (by rw [hphase]; rfl)
  rw [hphase] at hsound
  obtain ⟨haccepted, hnames, htaken, hunused, hreads, hstill⟩ := hsound
  rw [List.append_nil] at hreads
  have hunstarted := hcoherent.unstarted process (by rw [hphase]; rfl)
  have hunminted : ∀ minted ∈ deployment.minted, minted.process ≠ process :=
    hcoherent.unminted (by rw [hphase]; nofun)
  have hended : Coherent sha256 (deployment.move process .ended) outputs :=
    hcoherent.end (by rw [hphase]; nofun) (by rw [hphase]; nofun)
  constructor
  case quiet =>
    intro other hother
    have hne : other ≠ process := by
      rintro rfl
      exact hother (hcoherent.begun (by rw [hphase]; nofun))
    exact (move_of_ne _ hne).trans (hcoherent.quiet other hother)
  case minted =>
    exact fun minted hminted =>
      (hcoherent.minted minted hminted).append (hunminted minted hminted).symm
  case drawn => exact hcoherent.drawn
  case closed =>
    exact fun minted hminted => (move_of_ne _ (hunminted minted hminted)).trans
      (hcoherent.closed minted hminted)
  case nonces => exact hcoherent.nonces
  case processes => exact hcoherent.processes
  case phases =>
    intro other
    by_cases hsame : other = process
    · subst hsame
      rw [move_self]
      refine ⟨(resumed_append_self ⟨_, request, state, checked, deployment.now⟩
        hunstarted).symm, fun _ => rfl, ?_, ?_, ?_⟩
      · rintro _ ⟨⟩ found hfound
        exact haccepted.bound hcoherent hfound
      · exact fun call hcall => absurd hcall List.not_mem_nil
      · rintro _ ⟨⟩
        exact hcoherent.window haccepted
    have hother := (hcoherent.phases other).mono (later_move process
      (.running request (some state) (bindReplayReads .empty state.reads)))
    rw [move_of_ne _ hsame]
    cases hkind : deployment.phase other with
    | idle => trivial
    | ended => trivial
    | verified asking found =>
        rw [hkind] at hother
        exact hother
    | claiming asking found =>
        rw [hkind] at hother
        exact hother
    | rechecking asking found rechecked pending =>
        rw [hkind] at hother
        obtain ⟨hfound, hcall, hheld, hfree, hrest⟩ := hother
        refine ⟨hfound, hcall, hheld, fun started hstarted hnonce => ?_, hrest⟩
        rcases List.mem_append.mp hstarted with hold | hnew
        · exact hfree started hold hnonce
        · rw [List.mem_singleton.mp hnew] at hnonce
          apply hsame
          refine hcoherent.exclusive other process state.nonce ?_ ?_
          · rw [hkind, grip, hnonce]
          · rw [hphase, grip]
    | running asking previous invocations =>
        rw [hkind] at hother
        exact { hother with
          source := hother.source.trans
            (resumed_append_of_ne outputs (Ne.symm hsame)).symm }
  case exclusive =>
    intro first second nonce hfirst hsecond
    have hheld : ∀ other, grip ((deployment.move process (.running request (some state)
        (bindReplayReads .empty state.reads))).phase other) = some nonce →
          other ≠ process ∧ grip (deployment.phase other) = some nonce := by
      intro other hother
      have hne : other ≠ process := by
        rintro rfl
        rw [move_self] at hother
        cases hother
      exact ⟨hne, by rwa [move_of_ne _ hne] at hother⟩
    exact hcoherent.exclusive first second nonce (hheld first hfirst).2 (hheld second hsecond).2
  case fresh =>
    intro other awaited hawaited
    by_cases hsame : other = process
    · subst hsame
      rw [move_self] at hawaited
      cases hawaited
    · rw [move_of_ne _ hsame] at hawaited
      exact hcoherent.fresh other awaited hawaited
  case once =>
    rw [List.map_append, List.map_singleton, List.nodup_append]
    refine ⟨hcoherent.once, List.nodup_singleton _, ?_⟩
    rintro nonce hnonce _ hnew rfl
    obtain ⟨started, hstarted, hsame⟩ := List.mem_map.mp hnonce
    exact hunused started hstarted (hsame.trans (List.mem_singleton.mp hnew))
  case apart =>
    rw [List.map_append, List.map_singleton, List.nodup_append]
    refine ⟨hcoherent.apart, List.nodup_singleton _, ?_⟩
    rintro other hother _ hnew rfl
    obtain ⟨started, hstarted, hsame⟩ := List.mem_map.mp hother
    exact hunstarted started hstarted (hsame.trans (List.mem_singleton.mp hnew))
  case started =>
    intro started hstarted
    rcases List.mem_append.mp hstarted with hold | hnew
    · have hne := hunstarted started hold
      refine (hcoherent.started started hold).mono (later_move process _) ?_
      rw [move_of_ne _ hne]
      exact (hcoherent.started started hold).past
    · rw [List.mem_singleton.mp hnew]
      refine ⟨(later_move process _).accepted haccepted, hnames, hfresh, hreads.symm, hstill,
        (later_move process _).taken _ htaken, ?_⟩
      rw [move_self]
      rfl

theorem Coherent.startStep (hcoherent : Coherent sha256 deployment outputs)
    {recovered : Bool}
    (hstep : step sha256 deployment (.start process recovered) = some (later, emitted)) :
    Coherent sha256 later (outputs ++ emitted) := by
  simp only [step] at hstep
  split at hstep
  case h_2 => cases hstep
  rename_i request state checked hphase
  split at hstep
  · cases hstep
    rw [List.append_nil]
    exact hcoherent.end (by simp [hphase]) (by simp [hphase])
  · cases hstep
    exact hcoherent.start hphase

/-! ## Minting a state -/

/-- An attempt that enters no connector has nothing unsafe to answer for. -/
theorem safe_of_quiet {invocations : RequestInvocations} (hquiet : invocations.entered = [])
    (id : JsString) : (authRecoveryFacts sha256 invocations id).unsafeEntered = false := by
  simp only [authRecoveryFacts, hquiet, List.any_nil, List.foldl_nil]

/-- What an attempt that asks for a prompt hands on. -/
theorem Attempt.minted {now : ℕ} {request : Request} {previous : Option AuthRequestState}
    {invocations : RequestInvocations} {result : ToolResult} {connector digest : JsString}
    {forced : Bool} {facts : RecoveryFacts} (wire nonce : JsString)
    (hattempt : Attempt sha256 now outputs process request previous invocations)
    (hsettle : settle sha256 request previous invocations result =
      .prompts connector forced facts)
    (hdigest : requestDigest sha256 request.tool request.args = some digest) :
    MintedSound sha256 now outputs ⟨process, request, invocations, wire,
      mintState request previous connector digest facts nonce now, now⟩ := by
  obtain ⟨⟨id, hfacts⟩, hallowed, hround⟩ := settle_prompts hsettle
  have hsafe : facts.unsafeEntered = false := by
    rw [hfacts]
    rcases hallowed with htool | heligible
    · exact safe_of_quiet (hattempt.quiet (by rw [enters, htool]; rfl)) id
    · rw [hfacts] at heligible
      exact not_unsafeEntered heligible
  refine ⟨⟨connector, digest, facts, nonce, id, ?_, hfacts, hsafe, hdigest⟩, ?_, ?_, ?_⟩
  · rw [← hattempt.source]
  · rw [← hattempt.source]
    exact hattempt.carries
  · cases hprevious : previous with
    | none => exact Nat.le_of_ble_eq_true rfl
    | some state => exact hround state hprevious
  · cases hprevious : previous with
    | none => exact le_rfl
    | some state => exact hattempt.window state hprevious

theorem Coherent.mint (hcoherent : Coherent sha256 deployment outputs) {request : Request}
    {previous : Option AuthRequestState} {invocations : RequestInvocations}
    (hphase : deployment.phase process = .running request previous invocations)
    {minted : Minted} (hprocess : minted.process = process)
    (hsound : MintedSound sha256 deployment.now outputs minted)
    (hfresh : minted.state.nonce ∉ deployment.drawn) :
    Coherent sha256 { deployment.move process .ended with
      minted := minted :: deployment.minted
      drawn := minted.state.nonce :: deployment.drawn } outputs := by
  have hended : Coherent sha256 (deployment.move process .ended) outputs :=
    hcoherent.end (by rw [hphase]; nofun) (by rw [hphase]; nofun)
  have hunminted : ∀ known ∈ deployment.minted, known.process ≠ process :=
    hcoherent.unminted (by rw [hphase]; nofun)
  have hgrows : Later (deployment.move process .ended)
      { deployment.move process .ended with
        minted := minted :: deployment.minted
        drawn := minted.state.nonce :: deployment.drawn } :=
    ⟨le_rfl, fun _ => List.mem_cons_of_mem _, fun _ => List.mem_cons_of_mem _, fun _ => id⟩
  constructor
  case quiet => exact hended.quiet
  case minted =>
    intro known hknown
    rcases List.mem_cons.mp hknown with rfl | hold
    · exact hsound
    · exact hcoherent.minted known hold
  case drawn =>
    intro known hknown
    rcases List.mem_cons.mp hknown with rfl | hold
    · exact List.mem_cons_self
    · exact List.mem_cons_of_mem _ (hcoherent.drawn known hold)
  case closed =>
    intro known hknown
    rcases List.mem_cons.mp hknown with rfl | hold
    · rw [hprocess]
      exact move_self _
    · exact hended.closed known hold
  case nonces =>
    rw [List.map_cons, List.nodup_cons]
    refine ⟨fun hmem => ?_, hcoherent.nonces⟩
    obtain ⟨known, hknown, hnonce⟩ := List.mem_map.mp hmem
    exact hfresh (hnonce ▸ hcoherent.drawn known hknown)
  case processes =>
    rw [List.map_cons, List.nodup_cons, hprocess]
    refine ⟨fun hmem => ?_, hcoherent.processes⟩
    obtain ⟨known, hknown, hsame⟩ := List.mem_map.mp hmem
    exact hunminted known hknown hsame
  case phases => exact fun other => (hended.phases other).mono hgrows
  case exclusive => exact hended.exclusive
  case fresh => exact hended.fresh
  case once => exact hended.once
  case apart => exact hended.apart
  case started =>
    exact fun started hstarted =>
      (hended.started started hstarted).mono hgrows (hended.started started hstarted).past

theorem Coherent.settleStep (hcoherent : Coherent sha256 deployment outputs)
    {result : ToolResult} {nonce wire : JsString}
    (hstep : step sha256 deployment (.settle process result nonce wire) =
      some (later, emitted)) : Coherent sha256 later (outputs ++ emitted) := by
  simp only [step] at hstep
  split at hstep
  case h_2 => cases hstep
  rename_i request previous invocations hphase
  have hattempt := hcoherent.phases process
  rw [hphase] at hattempt
  have hended : Coherent sha256 (deployment.move process .ended) outputs :=
    hcoherent.end (by simp [hphase]) (by simp [hphase])
  split at hstep
  case h_2 =>
    cases hstep
    rw [List.append_nil]
    exact hended
  rename_i connector forced facts hsettle
  split at hstep
  · cases hstep
    rw [List.append_nil]
    exact hended
  rename_i digest hdigest
  split at hstep
  · rename_i hnew
    cases hstep
    rw [List.append_nil]
    have hsound := hattempt.minted wire nonce hsettle hdigest
    have hminted := hcoherent.mint hphase rfl hsound (by
      rw [mintState_nonce]
      exact hnew.2.1)
    rw [mintState_nonce] at hminted
    exact hminted
  · cases hstep

/-! ## The other steps -/

theorem Coherent.clockStep (hcoherent : Coherent sha256 deployment outputs) {next : ℕ}
    (hprompt : prompt deployment (.clock next) = true) (hnow : deployment.now ≤ next) :
    Coherent sha256 { deployment with now := next } outputs := by
  refine hcoherent.mono ⟨hnow, fun _ => id, fun _ => id, fun _ => id⟩ rfl rfl
    (fun _ => id) ?_
  intro process state hstate
  rw [prompt, List.all_eq_true] at hprompt
  have hbegun : process ∈ deployment.started := by
    refine hcoherent.begun fun hidle => ?_
    rw [hidle] at hstate
    cases hstate
  have hall := hprompt process hbegun
  rw [hstate, Option.all_some, decide_eq_true_eq] at hall
  exact hall

/-- A process that was not started takes its first phase. -/
theorem Coherent.begin (hcoherent : Coherent sha256 deployment outputs)
    (hprocess : process ∉ deployment.started) {phase : Phase}
    (hsound : PhaseSound sha256 deployment outputs process phase) (hgrip : grip phase = none)
    (hfresh : ∀ state, awaiting phase = some state → deployment.now < state.expiresAt) :
    Coherent sha256 { deployment.move process phase with
      started := process :: deployment.started } outputs := by
  have hidle := hcoherent.quiet process hprocess
  have hlisted : Coherent sha256
      { deployment with started := process :: deployment.started } outputs :=
    hcoherent.mono ⟨le_rfl, fun _ => id, fun _ => id, fun _ => id⟩ rfl rfl
      (fun _ => List.mem_cons_of_mem _) hcoherent.fresh
  refine hlisted.move List.mem_cons_self ?_
    (hsound.mono ⟨le_rfl, fun _ => id, fun _ => id, fun _ => id⟩) ?_ hfresh ?_
  · show deployment.phase process ≠ .ended
    rw [hidle]
    nofun
  · intro nonce hheld
    rw [hgrip] at hheld
    cases hheld
  · show settled (deployment.phase process) = true → _
    rw [hidle]
    nofun

theorem Coherent.presentStep (hcoherent : Coherent sha256 deployment outputs)
    {request : Request} {wire : JsString}
    (hstep : step sha256 deployment (.present process request wire) =
      some (later, emitted)) : Coherent sha256 later (outputs ++ emitted) := by
  simp only [step] at hstep
  split at hstep
  case isFalse => cases hstep
  rename_i hprocess
  cases hstep
  rw [List.append_nil]
  cases hverify : verify deployment.opened request wire deployment.now with
  | none => exact hcoherent.begin hprocess trivial rfl (by simp [awaiting])
  | some state =>
      obtain ⟨hopened, hformed, hpresented, hfresh⟩ := verify_eq_some hverify
      rw [Deployment.opened, Option.map_eq_some_iff] at hopened
      obtain ⟨minted, hfound, hstate⟩ := hopened
      refine hcoherent.begin hprocess ⟨⟨minted, List.mem_of_find?_eq_some hfound, hstate⟩,
        hformed, hpresented⟩ rfl ?_
      rintro _ ⟨⟩
      exact hfresh

theorem Coherent.callStep (hcoherent : Coherent sha256 deployment outputs) {request : Request}
    (hstep : step sha256 deployment (.call process request) = some (later, emitted)) :
    Coherent sha256 later (outputs ++ emitted) := by
  simp only [step] at hstep
  split at hstep
  case isFalse => cases hstep
  rename_i hprocess
  cases hstep
  rw [List.append_nil]
  have hunstarted := hcoherent.unstarted process (by rw [hcoherent.quiet _ hprocess]; rfl)
  exact hcoherent.begin hprocess ⟨(resumed_of_none hunstarted).symm, fun _ => rfl, by simp,
    fun call hcall => absurd hcall List.not_mem_nil, by simp⟩ rfl (by simp [awaiting])

theorem Coherent.runStep (hcoherent : Coherent sha256 deployment outputs)
    (hstep : step sha256 deployment (.run process) = some (later, emitted)) :
    Coherent sha256 later (outputs ++ emitted) := by
  simp only [step] at hstep
  split at hstep
  case h_2 => cases hstep
  rename_i request state hphase
  have hsound := hcoherent.phases process
  have hfresh := hcoherent.fresh process state (by rw [hphase]; rfl)
  rw [hphase] at hsound
  split at hstep
  · rename_i hchecks
    cases hstep
    rw [List.append_nil]
    refine hcoherent.move (hcoherent.begun ?_) ?_
      ⟨hsound, (Bool.and_eq_true _ _ ▸ hchecks).1⟩ (by simp [grip]) ?_ ?_
    · rw [hphase]
      simp
    · rw [hphase]
      simp
    · rintro _ ⟨⟩
      exact hfresh
    · rw [hphase]
      simp [settled]
  · cases hstep
    rw [List.append_nil]
    exact hcoherent.end (by simp [hphase]) (by simp [hphase])

/-- A read that is still the same is checked off. -/
theorem Coherent.recheckStep (hcoherent : Coherent sha256 deployment outputs)
    {current : Option Target}
    (hstep : step sha256 deployment (.recheck process current) = some (later, emitted)) :
    Coherent sha256 later (outputs ++ emitted) := by
  simp only [step] at hstep
  split at hstep
  case h_2 => cases hstep
  rename_i request state checked next pending hphase
  have hsound := hcoherent.phases process
  have hfresh := hcoherent.fresh process state (by rw [hphase]; rfl)
  rw [hphase] at hsound
  obtain ⟨haccepted, hnames, htaken, hunused, hreads, hstill⟩ := hsound
  split at hstep
  · rename_i hcurrent
    cases hstep
    rw [List.append_nil]
    refine hcoherent.move (hcoherent.begun ?_) ?_
      ⟨haccepted, hnames, htaken, hunused, ?_, ?_⟩ ?_ ?_ ?_
    · rw [hphase]
      simp
    · rw [hphase]
      simp
    · rw [hreads, List.map_append, List.append_assoc]
      rfl
    · intro found hfound
      rcases List.mem_append.mp hfound with hold | hnew
      · exact hstill found hold
      · rw [List.mem_singleton.mp hnew]
        exact hcurrent
    · rintro nonce hheld other hother hgrip
      refine hother (hcoherent.exclusive other process nonce hgrip ?_)
      rw [hphase]
      exact hheld
    · rintro _ ⟨⟩
      exact hfresh
    · rw [hphase]
      simp [settled]
  · cases hstep
    rw [List.append_nil]
    exact hcoherent.end (by simp [hphase]) (by simp [hphase])

/-- An attempt goes on with other facts. -/
theorem Coherent.goesOn (hcoherent : Coherent sha256 deployment outputs) {request : Request}
    {previous : Option AuthRequestState} {invocations next : RequestInvocations}
    (hphase : deployment.phase process = .running request previous invocations)
    (hnext : Attempt sha256 deployment.now outputs process request previous next) :
    Coherent sha256 (deployment.move process (.running request previous next)) outputs := by
  refine hcoherent.move (hcoherent.begun ?_) ?_ hnext nofun nofun fun _ => rfl
  · rw [hphase]
    nofun
  · rw [hphase]
    nofun

/-- A call that is not refused has the digest its address was bound to. -/
theorem Attempt.enter {now : ℕ} {request : Request} {previous : Option AuthRequestState}
    {invocations : RequestInvocations} {target : Target}
    (hattempt : Attempt sha256 now outputs process request previous invocations)
    (henters : enters request.tool = true)
    (hrefuses : replayRefuses sha256 invocations target = false) :
    Attempt sha256 now outputs process request previous
      (recordCallEntry invocations target) := by
  refine ⟨hattempt.source, fun hquiet => ?_, hattempt.bound, ?_, hattempt.window⟩
  · rw [henters] at hquiet
    cases hquiet
  · intro call hcall state hstate found hfound haddress
    rcases List.mem_append.mp hcall with hold | hnew
    · exact hattempt.carries call hold state hstate found hfound haddress
    · rw [List.mem_singleton.mp hnew] at haddress ⊢
      have hbound := hattempt.bound state hstate found hfound
      rw [haddress] at hbound
      rw [replayRefuses, hbound] at hrefuses
      simp only [Bool.or_eq_false_iff, decide_eq_false_iff_not, not_not] at hrefuses
      exact hrefuses.2

theorem Coherent.enterStep (hcoherent : Coherent sha256 deployment outputs) {target : Target}
    (hstep : step sha256 deployment (.enter process target) = some (later, emitted)) :
    Coherent sha256 later (outputs ++ emitted) := by
  simp only [step] at hstep
  split at hstep
  case h_2 => cases hstep
  rename_i request previous invocations hphase
  have hattempt := hcoherent.phases process
  rw [hphase] at hattempt
  split at hstep
  case isFalse => cases hstep
  rename_i hallowed
  rw [Bool.and_eq_true, Bool.not_eq_true'] at hallowed
  cases hstep
  rw [List.append_nil]
  exact hcoherent.goesOn hphase (hattempt.enter hallowed.1 hallowed.2)

theorem Coherent.failStep (hcoherent : Coherent sha256 deployment outputs)
    {connector : JsString} {failure : CallFailure}
    (hstep : step sha256 deployment (.fail process connector failure) =
      some (later, emitted)) : Coherent sha256 later (outputs ++ emitted) := by
  simp only [step] at hstep
  split at hstep
  case h_2 => cases hstep
  rename_i request previous invocations hphase
  have hattempt := hcoherent.phases process
  rw [hphase] at hattempt
  cases hstep
  rw [List.append_nil]
  exact hcoherent.goesOn hphase
    ⟨hattempt.source, hattempt.quiet, hattempt.bound, hattempt.carries, hattempt.window⟩

theorem move_same {phase : Phase} (hphase : deployment.phase process = phase) :
    deployment.move process phase = deployment := by
  rw [Deployment.move, ← hphase, Function.update_eq_self]

theorem Coherent.stopStep (hcoherent : Coherent sha256 deployment outputs)
    (hstep : step sha256 deployment (.stop process) = some (later, emitted)) :
    Coherent sha256 later (outputs ++ emitted) := by
  by_cases hended : deployment.phase process = .ended
  · simp only [step, hended] at hstep
    cases hstep
    rw [List.append_nil, move_same hended]
    exact hcoherent
  simp only [step] at hstep
  split at hstep
  · cases hstep
  · rename_i request state hphase
    cases hstep
    rw [List.append_nil]
    have hend := hcoherent.end (by simp [hphase]) hended
    exact hend.mono ⟨le_rfl, fun _ => id, fun _ => id, fun _ => id⟩ rfl rfl
      (fun _ => id) hend.fresh
  · rename_i hidle _
    cases hstep
    rw [List.append_nil]
    exact hcoherent.end hidle hended

theorem Coherent.landStep (hcoherent : Coherent sha256 deployment outputs)
    {key : JsString × JsString}
    (hstep : step sha256 deployment (.land key) = some (later, emitted)) :
    Coherent sha256 later (outputs ++ emitted) := by
  simp only [step] at hstep
  split at hstep
  case isFalse => cases hstep
  cases hstep
  rw [List.append_nil]
  have hserved := hcoherent.claimAuthRetry key
  exact hserved.mono ⟨le_rfl, fun _ => id, fun _ => id, fun _ => id⟩ rfl rfl
    (fun _ => id) hserved.fresh

/-- Every step keeps the invariant. -/
theorem Coherent.step (hcoherent : Coherent sha256 deployment outputs) {event : Event}
    (hprompt : prompt deployment event = true)
    (hstep : Auth.step sha256 deployment event = some (later, emitted)) :
    Coherent sha256 later (outputs ++ emitted) := by
  cases event with
  | clock next =>
      simp only [Auth.step] at hstep
      split at hstep
      · rename_i hnow
        cases hstep
        rw [List.append_nil]
        exact hcoherent.clockStep hprompt hnow
      · cases hstep
  | call process request => exact hcoherent.callStep hstep
  | present process request wire => exact hcoherent.presentStep hstep
  | run process => exact hcoherent.runStep hstep
  | claim process => exact hcoherent.claimStep hstep
  | recheck process current => exact hcoherent.recheckStep hstep
  | start process recovered => exact hcoherent.startStep hstep
  | enter process target => exact hcoherent.enterStep hstep
  | fail process connector failure => exact hcoherent.failStep hstep
  | settle process result nonce wire => exact hcoherent.settleStep hstep
  | stop process => exact hcoherent.stopStep hstep
  | land key => exact hcoherent.landStep hstep

theorem coherent_begin (now : ℕ) : Coherent sha256 (Auth.begin now) [] where
  quiet := fun _ _ => rfl
  minted := fun _ hminted => absurd hminted List.not_mem_nil
  drawn := fun _ hminted => absurd hminted List.not_mem_nil
  closed := fun _ hminted => absurd hminted List.not_mem_nil
  nonces := List.nodup_nil
  processes := List.nodup_nil
  phases := fun _ => trivial
  exclusive := fun _ _ _ hheld => absurd hheld (Option.some_ne_none _).symm
  fresh := fun _ _ hstate => absurd hstate (Option.some_ne_none _).symm
  once := List.nodup_nil
  apart := List.nodup_nil
  started := fun _ hstarted => absurd hstarted List.not_mem_nil

/-- Every prompt run is coherent. -/
theorem run_coherent (hrun : ((retries sha256).restrict prompt).Run deployment outputs) :
    Coherent sha256 deployment outputs := by
  refine hrun.invariant ?_ ?_
  · rintro state ⟨now, rfl⟩
    exact coherent_begin now
  · intro state reports event next emitted hcoherent hmove
    obtain ⟨hprompt, hstep⟩ := Machine.restrict_step hmove
    exact hcoherent.step hprompt hstep

end

end Connecta.Auth
