import Connecta.Auth.AuthRoundsSteps

/-!
# Retries after authorization

In every run in which no state expires under an accepted presentation, each minted
state starts one operation, for the call it was minted for and in time, after every
read its chain entered was found unchanged.  A presentation that is accepted just
before its state expires and claims its link after the claim of an earlier one
lapsed starts the operation again.
-/

namespace Connecta.Auth

open Connecta.Runtime
open Connecta.Transition
open Connecta.Inputs (MAX_INPUT_ROUNDS REQUEST_STATE_TTL_MS)

section

variable {sha256 : List ℕ → Option JsString} {deployment : Deployment}
variable {outputs : List Started}

/-! ## Chains of prompts -/

/-- The prompts of one original call, each given to the retry of the one before. -/
inductive Descends (deployment : Deployment) (outputs : List Started) (origin : ℕ) :
    ℕ → Minted → Prop where
  | first (minted : Minted) : minted ∈ deployment.minted → minted.process = origin →
      (∀ started ∈ outputs, started.process ≠ origin) →
        Descends deployment outputs origin 1 minted
  | next (depth : ℕ) (minted : Minted) (started : Started) (following : Minted) :
      Descends deployment outputs origin depth minted → started ∈ outputs →
      started.state = minted.state → following ∈ deployment.minted →
      following.process = started.process →
        Descends deployment outputs origin (depth + 1) following

/-- The attempts before a retry, its prompt's first. -/
inductive Earlier (deployment : Deployment) (outputs : List Started) (retry : Started) :
    Minted → Prop where
  | last (minted : Minted) : minted ∈ deployment.minted → minted.state = retry.state →
      Earlier deployment outputs retry minted
  | before (following : Minted) (started : Started) (minted : Minted) :
      Earlier deployment outputs retry following → started ∈ outputs →
      started.process = following.process → minted ∈ deployment.minted →
      minted.state = started.state → Earlier deployment outputs retry minted

variable {origin depth : ℕ} {minted : Minted}

theorem Descends.mem (hdescends : Descends deployment outputs origin depth minted) :
    minted ∈ deployment.minted := by
  cases hdescends with
  | first _ hminted _ _ => exact hminted
  | next _ _ _ _ _ _ _ hminted _ => exact hminted

theorem Descends.pos (hdescends : Descends deployment outputs origin depth minted) :
    0 < depth := by
  cases hdescends with
  | first _ _ _ _ => exact Nat.one_pos
  | next depth _ _ _ _ _ _ _ _ => exact Nat.succ_pos depth

/-- A prompt of an original call is the first round, and fixes the expiry. -/
theorem MintedSound.first {now : ℕ} (hsound : MintedSound sha256 now outputs minted)
    (hresumed : resumed outputs minted.process = none) :
    minted.state.round = 1 ∧
      minted.state.expiresAt = minted.instant + REQUEST_STATE_TTL_MS := by
  obtain ⟨connector, digest, facts, nonce, id, hmade, -⟩ := hsound.made
  rw [hmade, hresumed]
  exact ⟨rfl, rfl⟩

/-- A later prompt counts on, and keeps the expiry. -/
theorem MintedSound.next {now : ℕ} (hsound : MintedSound sha256 now outputs minted)
    {state : AuthRequestState} (hresumed : resumed outputs minted.process = some state) :
    minted.state.round = state.round + 1 ∧ minted.state.expiresAt = state.expiresAt := by
  obtain ⟨connector, digest, facts, nonce, id, hmade, -⟩ := hsound.made
  rw [hmade, hresumed]
  exact ⟨rfl, rfl⟩

theorem Coherent.resumed_of_process (hcoherent : Coherent sha256 deployment outputs)
    {started : Started} (hstarted : started ∈ outputs) {process : ℕ}
    (hprocess : process = started.process) :
    resumed outputs process = some started.state := by
  rw [hprocess]
  exact resumed_eq hcoherent.apart hstarted

/-- The depth of a prompt is its round, and its expiry that of the first. -/
theorem Descends.round (hcoherent : Coherent sha256 deployment outputs)
    (hdescends : Descends deployment outputs origin depth minted) :
    minted.state.round = depth ∧ ∃ first, Descends deployment outputs origin 1 first ∧
      minted.state.expiresAt = first.instant + REQUEST_STATE_TTL_MS := by
  induction hdescends with
  | first minted hminted hprocess hnone =>
      have hsound := hcoherent.minted minted hminted
      obtain ⟨hround, hexpires⟩ := hsound.first (by
        rw [hprocess]
        exact resumed_of_none hnone)
      exact ⟨hround, minted, .first minted hminted hprocess hnone, hexpires⟩
  | next depth minted started following _ hstarted hstate hfollowing hprocess ih =>
      obtain ⟨hround, first, hfirst, hexpires⟩ := ih
      obtain ⟨hnext, hkept⟩ := (hcoherent.minted following hfollowing).next
        (hcoherent.resumed_of_process hstarted hprocess)
      rw [hstate] at hnext hkept
      exact ⟨hnext.trans (congrArg (· + 1) hround), first, hfirst, hkept.trans hexpires⟩

/-- A chain does not fork. -/
theorem Descends.unique (hcoherent : Coherent sha256 deployment outputs) {other : Minted}
    (hdescends : Descends deployment outputs origin depth minted)
    (hother : Descends deployment outputs origin depth other) : minted = other := by
  induction hdescends generalizing other with
  | first minted hminted hprocess _ =>
      cases hother with
      | first _ hagain hsame _ =>
          exact List.inj_on_of_nodup_map hcoherent.processes hminted hagain
            (hprocess.trans hsame.symm)
      | next _ _ _ _ hzero _ _ _ _ => exact absurd hzero.pos (lt_irrefl 0)
  | next depth minted started following hbefore hstarted hstate hfollowing hprocess ih =>
      cases hother with
      | first _ _ _ _ => exact absurd hbefore.pos (lt_irrefl 0)
      | next _ again entered _ hagain hentered hsame hmem hby =>
          have hearlier := ih hagain
          subst hearlier
          have hstart : started = entered :=
            List.inj_on_of_nodup_map hcoherent.once hstarted hentered
              (congrArg AuthRequestState.nonce (hstate.trans hsame.symm))
          subst hstart
          exact List.inj_on_of_nodup_map hcoherent.processes hfollowing hmem
            (hprocess.trans hby.symm)

/-- Every prompt belongs to the chain of an original call. -/
theorem Coherent.descends (hcoherent : Coherent sha256 deployment outputs) (round : ℕ)
    (hminted : minted ∈ deployment.minted) (hround : minted.state.round = round) :
    ∃ origin, Descends deployment outputs origin round minted := by
  induction round generalizing minted with
  | zero =>
      obtain ⟨_, _, _, _, _, hmade, -⟩ := (hcoherent.minted minted hminted).made
      rw [hmade] at hround
      cases hround
  | succ round ih =>
      by_cases hnone : ∀ started ∈ outputs, started.process ≠ minted.process
      · obtain ⟨hfirst, -⟩ := (hcoherent.minted minted hminted).first (resumed_of_none hnone)
        obtain rfl : round = 0 := Nat.succ.inj (hround.symm.trans hfirst)
        exact ⟨minted.process, .first minted hminted rfl hnone⟩
      · push Not at hnone
        obtain ⟨started, hstarted, hprocess⟩ := hnone
        obtain ⟨hnext, -⟩ := (hcoherent.minted minted hminted).next
          (hcoherent.resumed_of_process hstarted hprocess.symm)
        obtain ⟨before, hbefore, hstate⟩ := (hcoherent.started started hstarted).accepted.minted
        obtain ⟨origin, hdescends⟩ := ih hbefore (by
          rw [hstate]
          exact Nat.succ.inj (hnext.symm.trans hround))
        exact ⟨origin, .next round before started minted hdescends hstarted hstate.symm
          hminted hprocess.symm⟩

theorem chain_length_le (hcoherent : Coherent sha256 deployment outputs)
    (chain : List Minted) (hnodup : chain.Nodup)
    (hchain : ∀ minted ∈ chain, ∃ depth, Descends deployment outputs origin depth minted) :
    chain.length ≤ MAX_INPUT_ROUNDS := by
  have hrounds : (chain.map fun minted => minted.state.round).Nodup := by
    refine hnodup.map_on fun first hfirst second hsecond hsame => ?_
    obtain ⟨depth, hdepth⟩ := hchain first hfirst
    obtain ⟨other, hother⟩ := hchain second hsecond
    rw [(hdepth.round hcoherent).1, (hother.round hcoherent).1] at hsame
    subst hsame
    exact hdepth.unique hcoherent hother
  have hrange : (chain.map fun minted => minted.state.round) ⊆
      List.range' 1 MAX_INPUT_ROUNDS := by
    intro round hround
    obtain ⟨minted, hminted, rfl⟩ := List.mem_map.mp hround
    obtain ⟨depth, hdepth⟩ := hchain minted hminted
    have hpos := hdepth.pos
    have hmax := (hcoherent.minted minted hdepth.mem).round
    rw [(hdepth.round hcoherent).1] at hmax ⊢
    rw [List.mem_range'_1]
    omega
  have hlength := (hrounds.subperm hrange).length_le
  rwa [List.length_map, List.length_range'] at hlength

/-! ## The reads of a chain -/

/-- A prompt lists what its attempt entered. -/
theorem MintedSound.lists {now : ℕ} (hsound : MintedSound sha256 now outputs minted)
    {call : EnteredCall} (hcall : call ∈ minted.invocations.entered) :
    ⟨call.address, classificationDigest sha256 call.definition⟩ ∈ minted.state.reads := by
  obtain ⟨connector, digest, facts, nonce, id, hmade, rfl, hsafe, -⟩ := hsound.made
  rw [hmade]
  have hlisted := mem_reads hsafe hcall
  refine mem_mergeReads (List.mem_append_right _ hlisted) fun other hother haddress => ?_
  rcases List.mem_append.mp hother with hprevious | hfacts
  · cases hresumed : resumed outputs minted.process with
    | none =>
        rw [hresumed] at hprevious
        cases hprevious
    | some state =>
        rw [hresumed] at hprevious
        have hdigest := hsound.carries call hcall state hresumed other hprevious haddress
        cases other
        exact congrArg₂ ReplayRead.mk haddress hdigest.symm
  · exact List.inj_on_of_nodup_map authRecoveryFacts_nodup hfacts hlisted haddress

/-- A prompt keeps what its attempt was resumed with. -/
theorem MintedSound.keeps {now : ℕ} (hsound : MintedSound sha256 now outputs minted)
    {state : AuthRequestState} (hresumed : resumed outputs minted.process = some state)
    (hnodup : (state.reads.map ReplayRead.address).Nodup) {read : ReplayRead}
    (hread : read ∈ state.reads) : read ∈ minted.state.reads := by
  have hcarries := hsound.carries
  obtain ⟨connector, digest, facts, nonce, id, hmade, rfl, -, -⟩ := hsound.made
  rw [hmade, hresumed]
  rw [hresumed] at hcarries
  refine mem_mergeReads (List.mem_append_left _ hread) fun other hother haddress => ?_
  rcases List.mem_append.mp hother with hprevious | hfacts
  · exact List.inj_on_of_nodup_map hnodup hprevious hread haddress
  · obtain ⟨call, hcall, hsame, hdigest⟩ := reads_source hfacts
    have hbound := hcarries call hcall state rfl read hread (haddress.symm.trans hsame.symm)
    cases other
    cases read
    exact congrArg₂ ReplayRead.mk haddress (hdigest.symm.trans hbound)

theorem Earlier.mem {retry : Started} (hearlier : Earlier deployment outputs retry minted) :
    minted ∈ deployment.minted := by
  cases hearlier with
  | last _ hminted _ => exact hminted
  | before _ _ _ _ _ _ hminted _ => exact hminted

/-- A retry is given the reads of every attempt before it. -/
theorem Earlier.keeps (hcoherent : Coherent sha256 deployment outputs) {retry : Started}
    (hearlier : Earlier deployment outputs retry minted) :
    ∀ read ∈ minted.state.reads, read ∈ retry.state.reads := by
  induction hearlier with
  | last minted hminted hstate =>
      rw [hstate]
      exact fun read => id
  | before following started minted hfollowing hstarted hprocess hminted hstate ih =>
      intro read hread
      have hnodup := (hcoherent.minted minted hminted).reads_nodup
      rw [hstate] at hnodup hread
      exact ih read ((hcoherent.minted following hfollowing.mem).keeps
        (hcoherent.resumed_of_process hstarted hprocess.symm) hnodup hread)

/-! ## The guarantees -/

/-- A retry is the call its state was minted for. -/
structure BoundTo (sha256 : List ℕ → Option JsString) (minted : Minted)
    (presented : Request) : Prop where
  principal : presented.options.principal =
    some (minted.request.options.principal.getD [])
  endpoint : presented.options.endpoint = minted.request.options.endpoint
  pool : presented.options.pool = minted.request.options.pool
  tool : presented.tool = minted.request.tool
  address : presented.args.lookup (.ofAscii "address") =
    (addressOf minted.request.args).map .string
  digest : requestDigest sha256 presented.tool presented.args =
    requestDigest sha256 minted.request.tool minted.request.args
  mcpName : presented.context.mcpName =
    some (minted.request.context.mcpName.getD minted.request.tool)

/-- A read was found, before the retry, to be the same fresh read. -/
def Rechecked (sha256 : List ℕ → Option JsString) (retry : Started)
    (call : EnteredCall) : Prop :=
  ∃ target, (⟨call.address, classificationDigest sha256 call.definition⟩, some target) ∈
      retry.checked ∧
    target.classificationFresh = true ∧ isWriteLike target.definition = false ∧
    classificationDigest sha256 target.definition =
      classificationDigest sha256 call.definition

theorem lookup_of_sameAddress {address : Option JsString} {args : List (JsString × Json)}
    (hsame : sameAddress address args = true) :
    args.lookup (.ofAscii "address") = address.map .string := by
  unfold sameAddress at hsame
  split at hsame
  · assumption
  · rename_i given hlookup
    rw [hlookup, decide_eq_true_eq.mp hsame]
    rfl
  · cases hsame

theorem Coherent.boundTo (hcoherent : Coherent sha256 deployment outputs) {started : Started}
    (hstarted : started ∈ outputs) {minted : Minted} (hminted : minted ∈ deployment.minted)
    (hstate : minted.state = started.state) : BoundTo sha256 minted started.request := by
  have hsound := hcoherent.started started hstarted
  have hpresented := hsound.accepted.presented
  have hnames := hsound.names
  obtain ⟨connector, digest, facts, nonce, id, hmade, -, -, hdigest⟩ :=
    (hcoherent.minted minted hminted).made
  simp only [presentedBy, Bool.and_eq_true, decide_eq_true_eq] at hpresented
  simp only [namesCall, Bool.and_eq_true, decide_eq_true_eq] at hnames
  rw [← hstate, hmade] at hpresented hnames
  obtain ⟨⟨⟨⟨⟨⟨⟨-, hprincipal⟩, hendpoint⟩, hpool⟩, -⟩, -⟩, -⟩, -⟩ := hpresented
  obtain ⟨⟨⟨hname, htool⟩, hsame⟩, haddress⟩ := hnames
  exact ⟨hprincipal, hendpoint.symm, hpool.symm, htool.symm, lookup_of_sameAddress haddress,
    hsame.trans hdigest.symm, hname⟩

theorem Coherent.rechecked (hcoherent : Coherent sha256 deployment outputs)
    {retry : Started} (hretry : retry ∈ outputs) {minted : Minted}
    (hearlier : Earlier deployment outputs retry minted) {call : EnteredCall}
    (hcall : call ∈ minted.invocations.entered) : Rechecked sha256 retry call := by
  have hsound := hcoherent.started retry hretry
  have hread := hearlier.keeps hcoherent _
    ((hcoherent.minted minted hearlier.mem).lists hcall)
  rw [← hsound.checked] at hread
  obtain ⟨⟨found, current⟩, hfound, rfl⟩ := List.mem_map.mp hread
  have hstill := hsound.still _ hfound
  obtain ⟨target, rfl, htarget⟩ := (Option.any_eq_true _ _).mp hstill
  simp only [Bool.and_eq_true, Bool.not_eq_true', decide_eq_true_eq] at htarget
  exact ⟨target, hfound, htarget.1.1, htarget.1.2, htarget.2⟩

/-- Authorization retries never replay a write, where no state expires between the
acceptance of a presentation and its operation. -/
theorem auth_retries (sha256 : List ℕ → Option JsString) {deployment : Deployment}
    {outputs : List Started}
    (hrun : ((retries sha256).restrict prompt).Run deployment outputs) :
    (outputs.map Started.state).Nodup ∧
    (∀ started ∈ outputs, started.instant < started.state.expiresAt ∧
      ∃ minted ∈ deployment.minted, minted.state = started.state ∧
        BoundTo sha256 minted started.request) ∧
    (∀ minted ∈ deployment.minted, ∃ origin first,
      Descends deployment outputs origin minted.state.round minted ∧
      Descends deployment outputs origin 1 first ∧
      minted.state.expiresAt = first.instant + REQUEST_STATE_TTL_MS) ∧
    (∀ origin, ∀ chain : List Minted, chain.Nodup →
      (∀ minted ∈ chain, ∃ depth, Descends deployment outputs origin depth minted) →
        chain.length ≤ MAX_INPUT_ROUNDS) ∧
    (∀ minted ∈ deployment.minted, Repeatable sha256 minted.invocations.entered) ∧
    ∀ started ∈ outputs, ∀ minted, Earlier deployment outputs started minted →
      ∀ call ∈ minted.invocations.entered, Rechecked sha256 started call := by
  have hcoherent := run_coherent hrun
  refine ⟨?_, ?_, ?_, fun origin chain => chain_length_le hcoherent chain, ?_, ?_⟩
  · have honce := hcoherent.once
    rw [show (fun started : Started => started.state.nonce) =
      AuthRequestState.nonce ∘ Started.state from rfl, ← List.map_map] at honce
    exact honce.of_map
  · intro started hstarted
    have hsound := hcoherent.started started hstarted
    obtain ⟨minted, hminted, hstate⟩ := hsound.accepted.minted
    exact ⟨hsound.timely, minted, hminted, hstate,
      hcoherent.boundTo hstarted hminted hstate⟩
  · intro minted hminted
    obtain ⟨origin, hdescends⟩ := hcoherent.descends minted.state.round hminted rfl
    obtain ⟨-, first, hfirst, hexpires⟩ := hdescends.round hcoherent
    exact ⟨origin, first, hdescends, hfirst, hexpires⟩
  · intro minted hminted
    obtain ⟨connector, digest, facts, nonce, id, -, rfl, hsafe, -⟩ :=
      (hcoherent.minted minted hminted).made
    exact repeatable hsafe
  · exact fun started hstarted minted hearlier call hcall =>
      hcoherent.rechecked hstarted hearlier hcall

end

/-! ## A state used twice -/

def exampleTool : ToolDef where
  classification := some .write
  annotations := []
  inputSchema := none
  outputSchema := none
  sourceFacts := none

def exampleRequest : Request where
  options := {
    vault := ⟨true, true, true⟩
    publicUrl := some (.ofAscii "https://gateway.example")
    endpoint := .ofAscii "/mcp"
    principal := some (.ofAscii "someone")
    pool := none
    getConnector := fun _ => some ⟨true, false⟩
    canManage := fun _ => true
    unavailable := none
    credentialUi := false }
  context := {
    method := .ofAscii "tools/call"
    mcpName := some (.ofAscii "call_destructive_tool")
    modern := true
    elicitation := ⟨false, true⟩
    inputResponses := fun _ => none }
  tool := .ofAscii "call_destructive_tool"
  args := [(.ofAscii "address", .string (.ofAscii "notes.add"))]

/-- SHA-256 of the one text that is hashed below, the call's. -/
def exampleHash (_ : List ℕ) : Option JsString :=
  some (.ofAscii "67adf7f748e213b16efce8c261ff77585a3a1f847ab3c5a1e5ebecbbc217cf1e")

def exampleTarget : Target := ⟨.ofAscii "notes.add", exampleTool, true⟩

def exampleResult : ToolResult where
  isError := true
  structuredContent := [(.ofAscii "error", .object [
    (.ofAscii "code", .string (.ofAscii "auth_required")),
    (.ofAscii "connector", .string (.ofAscii "notes"))])]

/-- A write has no credentials and reaches no connector; its state is presented at
once, and the write made. -/
def exampleRound : List Event :=
  [.call 0 exampleRequest, .fail 0 (.ofAscii "notes") ⟨some exampleTarget, true, false⟩,
    .settle 0 exampleResult (.ofAscii "00000000-0000-0000-0000-000000000000")
      (.ofAscii "signed"),
    .clock 1, .present 1 exampleRequest (.ofAscii "signed"), .run 1, .claim 1,
    .start 1 false, .enter 1 exampleTarget]

/-- The same state is presented again a second before it expires, and its link
is claimed once the first claim lapsed: the write is made again. -/
def exampleReplay : List Event :=
  exampleRound ++ [.clock 599000, .present 2 exampleRequest (.ofAscii "signed"), .run 2,
    .clock 900001, .claim 2, .start 2 false, .enter 2 exampleTarget]

theorem auth_retries_once : ∃ deployment outputs,
    ((retries exampleHash).restrict prompt).Run deployment outputs ∧ outputs ≠ [] ∧
      (outputs.map Started.state).Nodup := by
  have hexecute : (((retries exampleHash).restrict prompt).execute (begin 0)
      exampleRound).any (fun final => !final.2.isEmpty) = true := by
    decide +kernel
  obtain ⟨⟨deployment, outputs⟩, hfinal, hstarted⟩ := (Option.any_eq_true _ _).mp hexecute
  have hrun := Machine.Run.execute
    (.start (⟨0, rfl⟩ : ((retries exampleHash).restrict prompt).init (begin 0)))
    exampleRound hfinal
  refine ⟨deployment, outputs, hrun, ?_, (auth_retries exampleHash hrun).1⟩
  rintro rfl
  cases hstarted

theorem state_started_twice : ∃ deployment outputs,
    (retries exampleHash).Run deployment outputs ∧ ¬(outputs.map Started.state).Nodup := by
  have hexecute : ((retries exampleHash).execute (begin 0) exampleReplay).any
      (fun final => !decide (final.2.map Started.state).Nodup) = true := by
    decide +kernel
  obtain ⟨⟨deployment, outputs⟩, hfinal, htwice⟩ := (Option.any_eq_true _ _).mp hexecute
  rw [Bool.not_eq_true', decide_eq_false_iff_not] at htwice
  exact ⟨deployment, outputs, Machine.Run.execute
    (.start (⟨0, rfl⟩ : (retries exampleHash).init (begin 0))) exampleReplay hfinal, htwice⟩

end Connecta.Auth
