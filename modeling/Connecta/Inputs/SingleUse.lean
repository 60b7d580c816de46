import Connecta.Inputs.InputRoundsRuns

/-!
# Single use of input rounds

Every step keeps the invariant, so in every run in which no state expires under
an accepted presentation each nonce lets one call reach its operation, for the
binding it was minted under and in time.  A presentation that is accepted just
before its state expires and claims the nonce after the claim of an earlier one
lapsed reaches the operation again.
-/

namespace Connecta.Inputs

open Connecta.Runtime
open Connecta.Transition
open Connecta.Foundation (OrderedMap)

section

variable {host : Host} {deployment later : Deployment} {outputs : List Reached}

theorem coherent_start {now : ℕ} (hnow : now ≤ lastInstant) :
    Coherent host (start now) [] where
  clock := hnow
  quiet := fun _ _ => rfl
  sealed := fun _ hsealed => absurd hsealed List.not_mem_nil
  drawn := fun _ hsealed => absurd hsealed List.not_mem_nil
  closed := fun _ hsealed => absurd hsealed List.not_mem_nil
  nonces := List.nodup_nil
  blobs := List.nodup_nil
  processes := List.nodup_nil
  phases := fun _ => trivial
  exclusive := fun _ _ _ hheld => absurd hheld (Option.some_ne_none _).symm
  fresh := fun _ _ hstate => absurd hstate (Option.some_ne_none _).symm
  once := List.nodup_nil
  reached := fun _ hreached => absurd hreached List.not_mem_nil
  lineage := fun _ hsealed => absurd hsealed List.not_mem_nil

theorem Coherent.clockStep (hcoherent : Coherent host deployment outputs)
    {next : ℕ} (hprompt : prompt deployment (.clock next) = true)
    (hnow : deployment.now ≤ next) (hlast : next ≤ lastInstant) :
    Coherent host { deployment with now := next } outputs := by
  refine hcoherent.mono ⟨hnow, fun _ => id, fun _ => id, fun _ => id⟩ hlast rfl rfl
    (fun _ => id) ?_
  intro process state hstate
  rw [prompt, List.all_eq_true] at hprompt
  have hprocess : process ∈ deployment.started := by
    refine hcoherent.started fun hidle => ?_
    rw [hidle] at hstate
    cases hstate
  have hall := hprompt process hprocess
  rw [hstate, Option.all_some, decide_eq_true_eq] at hall
  exact hall

/-- A process that was not started takes its first phase. -/
theorem Coherent.begin (hcoherent : Coherent host deployment outputs)
    {process : ℕ} (hprocess : process ∉ deployment.started) {phase : Phase}
    (hsound : PhaseSound host deployment outputs process phase)
    (hgrip : grip phase = none)
    (hfresh : ∀ state, awaiting phase = some state →
      deployment.now < state.expiresAt) :
    Coherent host { deployment.move process phase with
      started := process :: deployment.started } outputs := by
  have hgrows : Later deployment
      { deployment with started := process :: deployment.started } :=
    ⟨le_rfl, fun _ => id, fun _ => id, fun _ => id⟩
  have hlisted := hcoherent.mono hgrows hcoherent.clock rfl rfl
    (fun _ => List.mem_cons_of_mem _) hcoherent.fresh
  have hidle := hcoherent.quiet process hprocess
  refine hlisted.move List.mem_cons_self ?_
    (hsound.mono hgrows fun _ => .inl) ?_ hfresh ?_
  · change deployment.phase process ≠ .ended
    rw [hidle]
    nofun
  · intro held hheld
    rw [hgrip] at hheld
    cases hheld
  · change settled (deployment.phase process) = true → _
    rw [hidle]
    nofun

theorem Coherent.presentStep (hcoherent : Coherent host deployment outputs)
    {process : ℕ} {request : Request} {wrapper : Wrapper}
    {emitted : List Reached}
    (hstep : step host deployment (.present process request wrapper) =
      some (later, emitted)) : Coherent host later (outputs ++ emitted) := by
  simp only [step] at hstep
  split at hstep
  · rename_i hprocess
    cases hstep
    rw [List.append_nil]
    cases hverify : verify deployment.opened request wrapper deployment.now with
    | none => exact hcoherent.begin hprocess trivial rfl (by simp [awaiting])
    | some state =>
        obtain ⟨blob, hpresents, hopened, -, hfresh, -⟩ :=
          verify_eq_some_iff.mp hverify
        rw [Deployment.opened, Option.map_eq_some_iff] at hopened
        obtain ⟨sealed, hfound, hstate⟩ := hopened
        refine hcoherent.begin hprocess ⟨⟨sealed, List.mem_of_find?_eq_some hfound,
          hstate⟩, wrapper, blob, hpresents⟩ rfl ?_
        rintro _ ⟨⟩
        exact hfresh
  · cases hstep

theorem Coherent.callStep (hcoherent : Coherent host deployment outputs)
    {process : ℕ} {request : Request} {prompts : Option (ℕ × ℕ)}
    {emitted : List Reached}
    (hstep : step host deployment (.call process request prompts) =
      some (later, emitted)) : Coherent host later (outputs ++ emitted) := by
  simp only [step] at hstep
  split at hstep
  · rename_i hcall
    obtain ⟨hprocess, hprompts⟩ := hcall
    cases hstep
    rw [List.append_nil]
    refine hcoherent.begin hprocess ⟨⟨?_, ?_, ?_⟩, by simp⟩ rfl (by simp [awaiting])
    · intro reached hreached hsame
      exact absurd hsame (hcoherent.idle_of_not_started hprocess reached hreached)
    · intro round hround
      obtain ⟨shown, -, rfl⟩ := Option.map_eq_some_iff.mp hround
      exact Nat.zero_le _
    · intro round hround
      obtain ⟨shown, rfl, rfl⟩ := Option.map_eq_some_iff.mp hround
      simp only [Option.all_some, promptsValid, Bool.and_eq_true,
        decide_eq_true_eq] at hprompts
      exact hprompts.2
  · cases hstep

theorem Coherent.resumeStep (hcoherent : Coherent host deployment outputs)
    {process : ℕ} {emitted : List Reached}
    (hstep : step host deployment (.resume process) = some (later, emitted)) :
    Coherent host later (outputs ++ emitted) := by
  simp only [step] at hstep
  split at hstep
  · rename_i request state hphase
    have hsound := hcoherent.phases process
    have hfresh := hcoherent.fresh process state (by rw [hphase]; rfl)
    rw [hphase] at hsound
    split at hstep
    · cases hstep
      rw [List.append_nil]
      exact hcoherent.end (by simp [hphase]) (by simp [hphase])
    · rename_i responses hresume
      cases hstep
      rw [List.append_nil]
      refine hcoherent.move (hcoherent.started ?_) ?_ ⟨hsound, hresume⟩ (by simp [grip]) ?_ ?_
      · rw [hphase]
        simp
      · rw [hphase]
        simp
      · rintro _ ⟨⟩
        exact hfresh
      · rw [hphase]
        simp [settled]
  · cases hstep

theorem Coherent.captureStep (hcoherent : Coherent host deployment outputs)
    {process : ℕ} {screens : Screens} {connector tool : JsString} {raw : Json}
    {write : Bool} {emitted : List Reached}
    (hstep : step host deployment
      (.capture process screens connector tool raw write) =
        some (later, emitted)) : Coherent host later (outputs ++ emitted) := by
  simp only [step] at hstep
  split at hstep
  · rename_i request previous capture hphase
    have hsound := hcoherent.phases process
    rw [hphase] at hsound
    split at hstep
    · rename_i hproper
      split at hstep
      · cases hstep
        rw [List.append_nil]
        exact hcoherent
      · rename_i pending hcapture
        cases hstep
        rw [List.append_nil]
        have hcaptured := captureDownstreamInput_ok hcapture
        refine hcoherent.move (hcoherent.started ?_) ?_ ⟨hsound.1, ?_⟩ (by simp [grip])
          (by simp [awaiting]) fun _ => rfl
        · rw [hphase]
          simp
        · rw [hphase]
          simp
        · rintro _ ⟨⟩
          refine ⟨?_, hproper⟩
          rw [hcaptured.source]
          exact hcaptured
    · cases hstep
  · cases hstep

theorem Coherent.finishStep (hcoherent : Coherent host deployment outputs)
    {process : ℕ} {nonce : JsString} {emitted : List Reached}
    (hstep : step host deployment (.finish process nonce) =
      some (later, emitted)) : Coherent host later (outputs ++ emitted) := by
  simp only [step] at hstep
  split at hstep
  · rename_i request previous capture hphase
    have hsound := hcoherent.phases process
    rw [hphase] at hsound
    have hend : Coherent host (deployment.move process .ended) outputs :=
      hcoherent.end (by simp [hphase]) (by simp [hphase])
    split at hstep
    · rename_i hnonce
      obtain ⟨huuid, hundrawn⟩ := hnonce
      split at hstep
      · cases hstep
        rw [List.append_nil]
        exact hend
      split at hstep
      · cases hstep
        rw [List.append_nil]
        exact hend
      rename_i captured state hfinish
      cases hstep
      rw [List.append_nil]
      have hsealing := finish_ok hfinish
      have hstate := hsealing.nonce
      subst hstate
      have hgrows : Later deployment
          { deployment with drawn := state.nonce :: deployment.drawn } :=
        ⟨le_rfl, fun _ => id, fun _ => List.mem_cons_of_mem _, fun _ => id⟩
      have hdrawn := hcoherent.mono hgrows hcoherent.clock rfl rfl (fun _ => id)
        hcoherent.fresh
      refine hdrawn.move (hcoherent.started ?_) ?_ ⟨previous, deployment.now,
        hsound.1, hsound.2 _ rfl, hsealing, le_rfl, huuid, List.mem_cons_self, ?_⟩
        ?_ (by simp [awaiting]) fun _ => rfl
      · rw [hphase]
        simp
      · change deployment.phase process ≠ .ended
        rw [hphase]
        simp
      · intro sealed hsealed hsame
        exact hundrawn (hsame ▸ hcoherent.drawn sealed hsealed)
      · rintro _ ⟨⟩ other - hheld
        change grip (deployment.phase other) = _ at hheld
        have hother := hcoherent.phases other
        cases hkind : deployment.phase other with
        | sealing asking sealing suspended =>
            rw [hkind] at hheld hother
            simp only [grip, Option.some.injEq, Prod.mk.injEq, true_and] at hheld
            obtain ⟨_, _, hsuspended⟩ := hother
            exact hundrawn (hheld ▸ hsuspended.drawn)
        | claimed asking claimed answers =>
            rw [hkind] at hheld
            simp only [grip, Option.some.injEq, Prod.mk.injEq, Bool.true_eq_false,
              false_and] at hheld
        | idle => rw [hkind] at hheld; cases hheld
        | verified asking verified => rw [hkind] at hheld; cases hheld
        | claiming asking claiming answers => rw [hkind] at hheld; cases hheld
        | operating asking before pending => rw [hkind] at hheld; cases hheld
        | ended => rw [hkind] at hheld; cases hheld
    · cases hstep
  · cases hstep

theorem relayed_isOk {pending : PendingInput} {wire : JsString}
    (hrelayed : (relayed pending wire).isOk = true) :
    wire.length ≤ MAX_RELAY_STATE_CHARS := by
  by_contra hlong
  rw [not_le] at hlong
  rw [relayed, if_pos hlong] at hrelayed
  cases hrelayed

theorem Coherent.sealStep (hcoherent : Coherent host deployment outputs)
    (hdigest : ∀ text, hexDigest (host.sha256Hex text) = true)
    {process : ℕ} {blob wire : JsString} {emitted : List Reached}
    (hstep : step host deployment (.sealState process blob wire) =
      some (later, emitted)) : Coherent host later (outputs ++ emitted) := by
  simp only [step] at hstep
  split at hstep
  · rename_i request capture state hphase
    split at hstep
    · rename_i hblob
      cases hstep
      rw [List.append_nil]
      exact hcoherent.seal hdigest hphase hblob.1 fun hgiven =>
        hblob.2.trans (relayed_isOk hgiven)
    · cases hstep
  · cases hstep

theorem Coherent.stopStep (hcoherent : Coherent host deployment outputs)
    {process : ℕ} {emitted : List Reached}
    (hended : deployment.phase process ≠ .ended)
    (hstep : step host deployment (.stop process) = some (later, emitted)) :
    Coherent host later (outputs ++ emitted) := by
  simp only [step] at hstep
  split at hstep
  · cases hstep
  · rename_i request state responses hphase
    cases hstep
    rw [List.append_nil]
    have hend := hcoherent.end hended (by simp [hphase])
    exact hend.mono ⟨le_rfl, fun _ => id, fun _ => id, fun _ => id⟩ hend.clock rfl
      rfl (fun _ => id) hend.fresh
  · rename_i hidle _
    cases hstep
    rw [List.append_nil]
    exact hcoherent.end hended hidle

theorem move_same {process : ℕ} {phase : Phase}
    (hphase : deployment.phase process = phase) :
    deployment.move process phase = deployment := by
  rw [Deployment.move, ← hphase, Function.update_eq_self]

/-- Every step keeps the invariant. -/
theorem Coherent.step (hcoherent : Coherent host deployment outputs)
    (hdigest : ∀ text, hexDigest (host.sha256Hex text) = true) {event : Event}
    (hprompt : prompt deployment event = true) {emitted : List Reached}
    (hstep : Inputs.step host deployment event = some (later, emitted)) :
    Coherent host later (outputs ++ emitted) := by
  cases event with
  | clock next =>
      simp only [Inputs.step] at hstep
      split at hstep
      · rename_i hclock
        cases hstep
        rw [List.append_nil]
        exact hcoherent.clockStep hprompt hclock.1 hclock.2
      · cases hstep
  | call process request prompts => exact hcoherent.callStep hstep
  | present process request wrapper => exact hcoherent.presentStep hstep
  | resume process => exact hcoherent.resumeStep hstep
  | claim process =>
      cases hphase : deployment.phase process with
      | claiming request state responses => exact hcoherent.claim hphase hstep
      | idle => simp only [Inputs.step, hphase, reduceCtorEq] at hstep
      | verified request state =>
          simp only [Inputs.step, hphase, reduceCtorEq] at hstep
      | claimed request state responses =>
          simp only [Inputs.step, hphase, reduceCtorEq] at hstep
      | operating request previous capture =>
          simp only [Inputs.step, hphase, reduceCtorEq] at hstep
      | sealing request capture state =>
          simp only [Inputs.step, hphase, reduceCtorEq] at hstep
      | ended => simp only [Inputs.step, hphase, reduceCtorEq] at hstep
  | enter process =>
      simp only [Inputs.step] at hstep
      split at hstep
      · rename_i request state responses hphase
        cases hstep
        exact hcoherent.enter hphase
      · cases hstep
  | capture process screens connector tool raw write =>
      exact hcoherent.captureStep hstep
  | finish process nonce => exact hcoherent.finishStep hstep
  | sealState process blob wire => exact hcoherent.sealStep hdigest hstep
  | stop process =>
      by_cases hended : deployment.phase process = .ended
      · simp only [Inputs.step, hended] at hstep
        cases hstep
        rw [List.append_nil, move_same hended]
        exact hcoherent
      · exact hcoherent.stopStep hended hstep
  | land key =>
      simp only [Inputs.step] at hstep
      split at hstep
      · cases hstep
        rw [List.append_nil]
        have hserved := hcoherent.serveClaim key
        exact hserved.mono ⟨le_rfl, fun _ => id, fun _ => id, fun _ => id⟩
          hserved.clock rfl rfl (fun _ => id) hserved.fresh
      · cases hstep

/-- Every prompt run is coherent. -/
theorem run_coherent (hdigest : ∀ text, hexDigest (host.sha256Hex text) = true)
    (hrun : ((rounds host).restrict prompt).Run deployment outputs) :
    Coherent host deployment outputs := by
  refine hrun.invariant ?_ ?_
  · rintro state ⟨now, hnow, rfl⟩
    exact coherent_start hnow
  · intro state emitted event next reached hcoherent hmove
    obtain ⟨hprompt, hstep⟩ := Machine.restrict_step hmove
    exact hcoherent.step hdigest hprompt hstep

/-! ## Chains of rounds -/

/-- The rounds of one original call, each suspended by the call that resumed the
round before. -/
inductive Descends (deployment : Deployment) (outputs : List Reached)
    (origin : ℕ) : ℕ → Sealed → Prop where
  | first (sealed : Sealed) : sealed ∈ deployment.sealed →
      sealed.process = origin →
      (∀ reached ∈ outputs, reached.process ≠ origin) →
        Descends deployment outputs origin 1 sealed
  | next (depth : ℕ) (sealed : Sealed) (reached : Reached) (following : Sealed) :
      Descends deployment outputs origin depth sealed →
      reached ∈ outputs → reached.state = sealed.state →
      following ∈ deployment.sealed → following.process = reached.process →
        Descends deployment outputs origin (depth + 1) following

variable {origin depth : ℕ} {sealed : Sealed}

theorem Descends.mem (hdescends : Descends deployment outputs origin depth sealed) :
    sealed ∈ deployment.sealed := by
  cases hdescends with
  | first _ hsealed _ _ => exact hsealed
  | next _ _ _ _ _ _ _ hsealed _ => exact hsealed

theorem Descends.pos (hdescends : Descends deployment outputs origin depth sealed) :
    0 < depth := by
  cases hdescends with
  | first _ _ _ _ => exact Nat.one_pos
  | next depth _ _ _ _ _ _ _ _ => exact Nat.succ_pos depth

/-- A round counts the rounds before it. -/
theorem Descends.le_round (hcoherent : Coherent host deployment outputs)
    (hdescends : Descends deployment outputs origin depth sealed) :
    depth ≤ sealed.state.round := by
  induction hdescends with
  | first sealed hsealed _ _ =>
      have hformed := (hcoherent.sealed sealed hsealed).formed
      simp only [wellFormed, Bool.and_eq_true, decide_eq_true_eq] at hformed
      exact hformed.1.1.1.1.1.1.2
  | next depth sealed reached following _ hreached hstate hfollowing hprocess ih =>
      rw [(hcoherent.lineage following hfollowing reached hreached
        hprocess.symm).1, hstate]
      exact Nat.succ_le_succ ih

theorem Descends.le_max (hcoherent : Coherent host deployment outputs)
    (hdescends : Descends deployment outputs origin depth sealed) :
    depth ≤ MAX_INPUT_ROUNDS := by
  have hformed := (hcoherent.sealed sealed hdescends.mem).formed
  simp only [wellFormed, Bool.and_eq_true, decide_eq_true_eq] at hformed
  exact (hdescends.le_round hcoherent).trans hformed.1.1.1.1.1.2

/-- A chain does not fork. -/
theorem Descends.unique (hcoherent : Coherent host deployment outputs)
    {other : Sealed} (hdescends : Descends deployment outputs origin depth sealed)
    (hother : Descends deployment outputs origin depth other) :
    sealed = other := by
  induction hdescends generalizing other with
  | first sealed hsealed hprocess _ =>
      cases hother with
      | first _ hagain hsame _ =>
          exact List.inj_on_of_nodup_map hcoherent.processes hsealed hagain
            (hprocess.trans hsame.symm)
      | next _ _ _ _ hzero _ _ _ _ => exact absurd hzero.pos (lt_irrefl 0)
  | next depth sealed reached following hbefore hreached hstate hfollowing
      hprocess ih =>
      cases hother with
      | first _ _ _ _ => exact absurd hbefore.pos (lt_irrefl 0)
      | next _ again entered _ hagain hentered hsame hmem hby =>
          have hbefore := ih hagain
          subst hbefore
          have hreach : reached = entered :=
            List.inj_on_of_nodup_map hcoherent.once hreached hentered
              (congrArg DownstreamRequestState.nonce (hstate.trans hsame.symm))
          subst hreach
          exact List.inj_on_of_nodup_map hcoherent.processes hfollowing hmem
            (hprocess.trans hby.symm)

/-- The first round of a chain fixes its expiry. -/
theorem Descends.expiresAt (hcoherent : Coherent host deployment outputs)
    (hdescends : Descends deployment outputs origin depth sealed) :
    ∃ first, Descends deployment outputs origin 1 first ∧
      sealed.state.expiresAt = first.state.expiresAt := by
  induction hdescends with
  | first sealed hsealed hprocess hnot =>
      exact ⟨sealed, .first sealed hsealed hprocess hnot, rfl⟩
  | next depth sealed reached following _ hreached hstate hfollowing hprocess ih =>
      obtain ⟨first, hfirst, hexpires⟩ := ih
      refine ⟨first, hfirst, ?_⟩
      rw [(hcoherent.lineage following hfollowing reached hreached
        hprocess.symm).2, hstate, hexpires]

theorem chain_length_le (hcoherent : Coherent host deployment outputs)
    (chain : List Sealed) (hnodup : chain.Nodup)
    (hchain : ∀ sealed ∈ chain,
      ∃ depth, Descends deployment outputs origin depth sealed) :
    chain.length ≤ MAX_INPUT_ROUNDS := by
  have hdepths : ∀ sealed, ∃ depth, sealed ∈ chain →
      Descends deployment outputs origin depth sealed := by
    intro sealed
    by_cases hsealed : sealed ∈ chain
    · obtain ⟨depth, hdepth⟩ := hchain sealed hsealed
      exact ⟨depth, fun _ => hdepth⟩
    · exact ⟨0, fun hmem => absurd hmem hsealed⟩
  choose depthOf hdepthOf using hdepths
  have hdistinct : (chain.map depthOf).Nodup := by
    refine hnodup.map_on fun first hfirst second hsecond hsame => ?_
    have hdescends := hdepthOf first hfirst
    rw [hsame] at hdescends
    exact hdescends.unique hcoherent (hdepthOf second hsecond)
  have hrange : chain.map depthOf ⊆ List.range' 1 MAX_INPUT_ROUNDS := by
    intro depth hdepth
    obtain ⟨sealed, hsealed, rfl⟩ := List.mem_map.mp hdepth
    have hdescends := hdepthOf sealed hsealed
    have hpos := hdescends.pos
    have hmax := hdescends.le_max hcoherent
    rw [List.mem_range'_1]
    omega
  have hlength := (hdistinct.subperm hrange).length_le
  rwa [List.length_map, List.length_range'] at hlength

/-! ## The guarantees -/

/-- A call is resumed for the binding its state was minted under. -/
structure BoundTo (sha256Hex : JsString → JsString) (minted : Sealed)
    (presented : Request) : Prop where
  principal : presented.options.principal = minted.request.options.principal
  endpoint : presented.options.endpoint = minted.request.options.endpoint
  pool : presented.options.pool = minted.request.options.pool
  connector : minted.state.connector = minted.capture.pending.connector
  registered : presented.options.getConnector minted.state.connector = true
  tool : presented.tool = minted.request.tool
  address : presented.args.lookup (.ofAscii "address") = some (.string
    (stringOf (minted.request.args.lookup (.ofAscii "address"))))
  digest : requestDigest sha256Hex presented.tool presented.args =
    requestDigest sha256Hex minted.request.tool minted.request.args
  mcpName : presented.context.mcpName = some
    (minted.request.context.mcpName.getD minted.request.tool)

/-- A request that can present what was minted under the same binding. -/
structure SameBinding (minted : Sealed) (presented : Request) : Prop where
  opens : presented.options.vault.opens = true
  principal : presented.options.principal = minted.request.options.principal
  endpoint : presented.options.endpoint = minted.request.options.endpoint
  pool : presented.options.pool = minted.request.options.pool
  registered :
    presented.options.getConnector minted.capture.pending.connector = true
  method : presented.context.method = .ofAscii "tools/call"
  mcpName : presented.context.mcpName = minted.request.context.mcpName

/-- What one downstream key is answered with: the client's answer under the wire
key of its place, without form content unless a form was accepted. -/
structure FiledUnder (elicitResult : Json → Option ElicitResult)
    (reached : Reached) (entries : List (JsString × Json)) : Prop where
  asked : ∀ index key request, entries[index]? = some (key, request) →
    ∃ mode, requestMode request = some mode ∧
      reached.responses.get? key =
        (reached.request.context.inputResponses
          (namespaceOf reached.state.connector index)).bind fun response =>
            (elicitResult response).map fun parsed =>
              if mode = .url ∨ parsed.action ≠ .accept then
                .object [(.ofAscii "action", .string parsed.action.text)]
              else parsed.value
  others : ∀ key, key ∉ entries.map Prod.fst → reached.responses.get? key = none

theorem Coherent.boundTo (hcoherent : Coherent host deployment outputs)
    {reached : Reached} (hreached : reached ∈ outputs) {minted : Sealed}
    (hminted : minted ∈ deployment.sealed) (hstate : minted.state = reached.state) :
    BoundTo host.sha256Hex minted reached.request := by
  have hreach := hcoherent.reached reached hreached
  have hsealed := hcoherent.sealed minted hminted
  obtain ⟨wrapper, blob, hpresents⟩ := hreach.accepted.presents
  obtain ⟨hnames, -⟩ := resumeResponses_ok hreach.responses
  have hmint := hsealed.minted
  rw [hstate] at hmint
  refine ⟨hpresents.principal.trans hmint.principal.symm,
    hpresents.endpoint.symm.trans hmint.endpoint,
    hpresents.pool.symm.trans hmint.pool, hsealed.source, ?_,
    hnames.tool.symm.trans hmint.tool, ?_, hnames.digest.symm.trans hmint.digest,
    ?_⟩
  · rw [hstate]
    exact hpresents.registered
  · rw [hnames.address, hmint.address]
  · rw [hnames.mcpName, hmint.wireTool]

theorem Coherent.opened (hcoherent : Coherent host deployment outputs)
    {minted : Sealed} (hminted : minted ∈ deployment.sealed) :
    deployment.opened minted.state.connector minted.blob = some minted.state := by
  rw [Deployment.opened, Option.map_eq_some_iff]
  cases hfind : deployment.sealed.find? fun sealed =>
      decide (sealed.state.connector = minted.state.connector) &&
        decide (sealed.blob = minted.blob) with
  | none =>
      have hnone := List.find?_eq_none.mp hfind minted hminted
      simp at hnone
  | some found =>
      have hmatches := List.find?_some hfind
      simp only [Bool.and_eq_true, decide_eq_true_eq] at hmatches
      have hfound := List.mem_of_find?_eq_some hfind
      refine ⟨found, rfl, ?_⟩
      rw [List.inj_on_of_nodup_map hcoherent.blobs hfound hminted hmatches.2]

theorem Coherent.accepts (hcoherent : Coherent host deployment outputs)
    {minted : Sealed} (hminted : minted ∈ deployment.sealed)
    (hgiven : minted.given = true) {name : JsString}
    (hname : minted.request.context.mcpName = some name) {request : Request}
    (hsame : SameBinding minted request)
    (hfresh : deployment.now < minted.state.expiresAt) :
    verify deployment.opened request
      ⟨some minted.capture.pending.connector, some minted.blob⟩ deployment.now =
        some minted.state := by
  have hsealed := hcoherent.sealed minted hminted
  have hmint := hsealed.minted
  refine verify_eq_some_iff.mpr ⟨minted.blob, ?_, hcoherent.opened hminted,
    hsealed.formed, hfresh, hsealed.window⟩
  refine ⟨hsame.opens, ?_, ?_, rfl, hsealed.short hgiven,
    hsame.principal.trans hmint.principal, hmint.known,
    hmint.endpoint.trans hsame.endpoint.symm, hmint.pool.trans hsame.pool.symm,
    hsame.method, ?_⟩
  · rw [hsealed.source]
  · rw [hsealed.source]
    exact hsame.registered
  · rw [hsame.mcpName, hmint.wireTool, hname, Option.getD_some]

theorem Coherent.filedUnder (hcoherent : Coherent host deployment outputs)
    {reached : Reached} (hreached : reached ∈ outputs) {minted : Sealed}
    (hminted : minted ∈ deployment.sealed) (hstate : minted.state = reached.state) :
    ∃ members entries, minted.capture.raw = .object members ∧
      requestEntries members = some entries ∧
      FiledUnder host.elicitResult reached entries := by
  have hreach := hcoherent.reached reached hreached
  have hsealed := hcoherent.sealed minted hminted
  obtain ⟨-, hcollect⟩ := resumeResponses_ok hreach.responses
  obtain ⟨members, entries, hraw, hentries, -, hstands⟩ :=
    hsealed.captured.captured.stands
  rw [← hsealed.inputs, ← hsealed.source, hstate] at hstands
  have hproper := hsealed.captured.proper
  rw [hraw] at hproper
  simp only [properObject, hentries, Option.map_some, Option.getD_some,
    decide_eq_true_eq] at hproper
  have hkeys : (reached.state.inputs.map fun input => input.2.key).Nodup := by
    rw [hstands.keys]
    exact hproper
  refine ⟨members, entries, hraw, hentries, ?_, ?_⟩
  · intro index key request hentry
    obtain ⟨mode, hmode, hinput⟩ := hstands.each index key request hentry
    rw [Nat.zero_add] at hinput
    refine ⟨mode, hmode, ?_⟩
    exact collect_filed hcollect hkeys (fun _ _ => OrderedMap.get?_empty _)
      (List.mem_of_getElem? hinput)
  · intro key hkey
    rw [collect_other hcollect]
    · exact OrderedMap.get?_empty key
    · rw [hstands.keys]
      exact hkey

/-- Input rounds are single use and bound, where no state expires between the
acceptance of a presentation and its operation. -/
theorem input_rounds (host : Host)
    (hdigest : ∀ text, hexDigest (host.sha256Hex text) = true)
    {deployment : Deployment} {outputs : List Reached}
    (hrun : ((rounds host).restrict prompt).Run deployment outputs) :
    (outputs.map fun reached => reached.state.nonce).Nodup ∧
    (∀ reached ∈ outputs, reached.instant < reached.state.expiresAt ∧
      ∃ minted ∈ deployment.sealed, minted.state = reached.state ∧
        BoundTo host.sha256Hex minted reached.request ∧
        ∃ members entries, minted.capture.raw = .object members ∧
          requestEntries members = some entries ∧
          FiledUnder host.elicitResult reached entries) ∧
    (∀ origin, (∀ depth sealed, Descends deployment outputs origin depth sealed →
        ∃ first, Descends deployment outputs origin 1 first ∧
          sealed.state.expiresAt = first.state.expiresAt) ∧
      ∀ chain : List Sealed, chain.Nodup → (∀ sealed ∈ chain,
        ∃ depth, Descends deployment outputs origin depth sealed) →
          chain.length ≤ MAX_INPUT_ROUNDS) ∧
    ∀ minted ∈ deployment.sealed, minted.given = true →
      minted.request.context.mcpName.isSome → ∀ request,
        SameBinding minted request → deployment.now < minted.state.expiresAt →
          verify deployment.opened request
            ⟨some minted.capture.pending.connector, some minted.blob⟩
            deployment.now = some minted.state := by
  have hcoherent := run_coherent hdigest hrun
  refine ⟨hcoherent.once, ?_, ?_, ?_⟩
  · intro reached hreached
    have hreach := hcoherent.reached reached hreached
    obtain ⟨minted, hminted, hstate⟩ := hreach.accepted.sealed
    exact ⟨hreach.timely, minted, hminted, hstate,
      hcoherent.boundTo hreached hminted hstate,
      hcoherent.filedUnder hreached hminted hstate⟩
  · intro origin
    exact ⟨fun _ _ hdescends => hdescends.expiresAt hcoherent,
      fun chain => chain_length_le hcoherent chain⟩
  · intro minted hminted hgiven hname request hsame hfresh
    obtain ⟨name, hname⟩ := Option.isSome_iff_exists.mp hname
    exact hcoherent.accepts hminted hgiven hname hsame hfresh

end

/-! ## A nonce used twice -/

def exampleHost : Host where
  sha256Hex := fun _ => List.replicate 64 (ascii 'a')
  elicitResult := fun _ => none

def exampleRequest : Request where
  options := {
    vault := ⟨true, true, true⟩
    principal := some (.ofAscii "someone")
    endpoint := .ofAscii "/mcp"
    pool := none
    getConnector := fun _ => true }
  context := {
    method := .ofAscii "tools/call"
    mcpName := some (.ofAscii "call_tool")
    modern := true
    elicitation := ⟨true, true⟩
    inputResponses := fun _ => none }
  tool := .ofAscii "call_tool"
  args := [(.ofAscii "address", .string (.ofAscii "notes.read"))]

def exampleScreens : Screens where
  url := fun _ => none
  formParams := fun _ => none
  containsUrl := fun _ => false
  redact := id
  changes := fun _ => false
  outputSafe := fun _ => true
  echoesPrivateState := fun _ _ => false

def exampleWrapper : Wrapper :=
  ⟨some (.ofAscii "notes"), some (.ofAscii "sealed")⟩

/-- A call is suspended, and its state is presented and resumed at once. -/
def exampleRound : List Event :=
  [.call 0 exampleRequest none,
    .capture 0 exampleScreens (.ofAscii "notes") (.ofAscii "read")
      (.object [(.ofAscii "requestState", .string (.ofAscii "opaque"))]) false,
    .finish 0 (.ofAscii "00000000-0000-0000-0000-000000000000"),
    .sealState 0 (.ofAscii "sealed") (.ofAscii "signed sealed"),
    .clock 1, .present 1 exampleRequest exampleWrapper, .resume 1, .claim 1,
    .enter 1]

/-- The same state is presented again a millisecond before it expires, and its
nonce is claimed once the first claim lapsed. -/
def exampleReplay : List Event :=
  exampleRound ++ [.clock 599999, .present 2 exampleRequest exampleWrapper,
    .resume 2, .clock 600001, .claim 2, .enter 2]

theorem input_rounds_once :
    ∃ deployment outputs,
      ((rounds exampleHost).restrict prompt).Run deployment outputs ∧
      outputs ≠ [] ∧ (outputs.map fun reached : Reached => reached.state.nonce).Nodup := by
  have hexecute : (((rounds exampleHost).restrict prompt).execute (start 0)
      exampleRound).any (fun final => !final.2.isEmpty) = true := by
    decide +kernel
  obtain ⟨⟨deployment, outputs⟩, hfinal, hreached⟩ :=
    (Option.any_eq_true _ _).mp hexecute
  have hrun := Machine.Run.execute
    (.start (⟨0, Nat.zero_le _, rfl⟩ :
      ((rounds exampleHost).restrict prompt).init (start 0)))
    exampleRound hfinal
  refine ⟨deployment, outputs, hrun, ?_, (input_rounds exampleHost ?_ hrun).1⟩
  · rintro rfl
    cases hreached
  · intro text
    change hexDigest (List.replicate 64 (ascii 'a')) = true
    decide +kernel

theorem nonce_used_twice : ∃ deployment outputs,
    (rounds exampleHost).Run deployment outputs ∧
      ¬(outputs.map fun reached => reached.state.nonce).Nodup := by
  have hexecute : ((rounds exampleHost).execute (start 0) exampleReplay).any
      (fun final => !decide
        (final.2.map fun reached => reached.state.nonce).Nodup) = true := by
    decide +kernel
  obtain ⟨⟨deployment, outputs⟩, hfinal, htwice⟩ :=
    (Option.any_eq_true _ _).mp hexecute
  rw [Bool.not_eq_true', decide_eq_false_iff_not] at htwice
  exact ⟨deployment, outputs, Machine.Run.execute
    (.start (⟨0, Nat.zero_le _, rfl⟩ : (rounds exampleHost).init (start 0)))
    exampleReplay hfinal, htwice⟩

end Connecta.Inputs
