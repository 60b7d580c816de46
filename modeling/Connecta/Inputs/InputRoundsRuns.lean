import Connecta.Inputs.InputRounds

/-!
# Runs of input rounds

The invariant of the rounds: what is sealed is well formed, its claim stays taken
until it expires, and no nonce is in the hands of two processes.  It holds as
long as no state expires under a presentation that was accepted.
-/

namespace Connecta.Inputs

open Connecta.Runtime
open Connecta.Transition
open Connecta.ExpiringStore (compareAndSet compareAndSet_cases read put_self
  put_of_ne)
open Connecta.Foundation (OrderedMap)

/-! ## The invariant -/

/-- The claim of a state stays taken until the state expires. -/
def Taken (deployment : Deployment) (state : DownstreamRequestState) : Prop :=
  ∃ entry instant, deployment.used (claimKey state) = some entry ∧
    entry.expiresAt = some instant ∧ state.expiresAt ≤ instant

structure CaptureSound (capture : Capture) : Prop where
  captured : Captured capture.pending.connector
    (capture.pending.connector ++ .ofAscii "." ++ capture.tool) capture.raw
    capture.write capture.pending
  proper : properObject capture.raw = true

structure SealedSound (host : Host) (now : ℕ) (sealed : Sealed) : Prop where
  formed : wellFormed sealed.state = true
  minted : MintedFor host.sha256Hex sealed.request sealed.state
  source : sealed.state.connector = sealed.capture.pending.connector
  inputs : sealed.state.inputs = sealed.capture.pending.inputs
  captured : CaptureSound sealed.capture
  short : sealed.given = true → sealed.blob.length ≤ MAX_RELAY_STATE_CHARS
  window : sealed.state.expiresAt ≤ now + REQUEST_STATE_TTL_MS

/-- A state that was sealed, and is presented under its binding. -/
structure Accepted (deployment : Deployment) (request : Request)
    (state : DownstreamRequestState) : Prop where
  sealed : ∃ sealed ∈ deployment.sealed, sealed.state = state
  presents : ∃ wrapper blob, Presents request wrapper blob state

/-- What a process that runs its operation takes over. -/
structure Continues (now : ℕ) (outputs : List Reached) (process : ℕ)
    (previous : Option Previous) : Prop where
  entered : ∀ reached ∈ outputs, reached.process = process →
    previous = some reached.state.previous
  short : ∀ round ∈ previous, round.previousStates.length +
    round.requestState.toList.length ≤ round.round
  window : ∀ round ∈ previous, round.expiresAt ≤ now + REQUEST_STATE_TTL_MS

structure SealingSound (host : Host) (deployment : Deployment)
    (outputs : List Reached) (process : ℕ) (request : Request)
    (capture : Capture) (state : DownstreamRequestState) (previous : Option Previous)
    (since : ℕ) : Prop where
  continues : Continues deployment.now outputs process previous
  captured : CaptureSound capture
  sealing : Sealing host.sha256Hex request previous capture.pending since
    state.nonce state
  since : since ≤ deployment.now
  uuid : uuid state.nonce = true
  drawn : state.nonce ∈ deployment.drawn
  fresh : ∀ sealed ∈ deployment.sealed, sealed.state.nonce ≠ state.nonce

def PhaseSound (host : Host) (deployment : Deployment) (outputs : List Reached)
    (process : ℕ) : Phase → Prop
  | .verified request state => Accepted deployment request state
  | .claiming request state responses => Accepted deployment request state ∧
      resumeResponses host.sha256Hex host.elicitResult request state =
        .ok responses
  | .claimed request state responses => Accepted deployment request state ∧
      resumeResponses host.sha256Hex host.elicitResult request state =
        .ok responses ∧
      Taken deployment state ∧
      ∀ reached ∈ outputs, reached.state.nonce ≠ state.nonce
  | .operating _ previous capture =>
      Continues deployment.now outputs process previous ∧
        ∀ captured ∈ capture, CaptureSound captured
  | .sealing request capture state => ∃ previous since,
      SealingSound host deployment outputs process request capture state previous
        since
  | .idle => True
  | .ended => True

/-- The nonce a process alone holds: claimed, or drawn and not yet sealed. -/
def grip : Phase → Option (Bool × JsString)
  | .claimed _ state _ => some (true, state.nonce)
  | .sealing _ _ state => some (false, state.nonce)
  | _ => none

/-- The operation was reached, or needs not be. -/
def settled : Phase → Bool
  | .operating .. => true
  | .sealing .. => true
  | .ended => true
  | _ => false

structure ReachedSound (host : Host) (deployment : Deployment)
    (reached : Reached) : Prop where
  accepted : Accepted deployment reached.request reached.state
  responses : resumeResponses host.sha256Hex host.elicitResult reached.request
    reached.state = .ok reached.responses
  timely : reached.instant < reached.state.expiresAt
  taken : Taken deployment reached.state
  past : settled (deployment.phase reached.process) = true

structure Coherent (host : Host) (deployment : Deployment)
    (outputs : List Reached) : Prop where
  clock : deployment.now ≤ lastInstant
  quiet : ∀ process, process ∉ deployment.started →
    deployment.phase process = .idle
  sealed : ∀ sealed ∈ deployment.sealed,
    SealedSound host deployment.now sealed
  drawn : ∀ sealed ∈ deployment.sealed, sealed.state.nonce ∈ deployment.drawn
  closed : ∀ sealed ∈ deployment.sealed,
    deployment.phase sealed.process = .ended
  nonces : (deployment.sealed.map fun sealed => sealed.state.nonce).Nodup
  blobs : (deployment.sealed.map Sealed.blob).Nodup
  processes : (deployment.sealed.map Sealed.process).Nodup
  phases : ∀ process,
    PhaseSound host deployment outputs process (deployment.phase process)
  exclusive : ∀ process other held, grip (deployment.phase process) = some held →
    grip (deployment.phase other) = some held → process = other
  fresh : ∀ process state, awaiting (deployment.phase process) = some state →
    deployment.now < state.expiresAt
  once : (outputs.map fun reached => reached.state.nonce).Nodup
  reached : ∀ reached ∈ outputs, ReachedSound host deployment reached
  lineage : ∀ sealed ∈ deployment.sealed, ∀ reached ∈ outputs,
    reached.process = sealed.process →
      sealed.state.round = reached.state.round + 1 ∧
        sealed.state.expiresAt = reached.state.expiresAt

section

variable {host : Host} {deployment later : Deployment} {outputs : List Reached}
variable {process : ℕ}

/-- States with one nonce were sealed once. -/
theorem Coherent.unique (hcoherent : Coherent host deployment outputs)
    {first second : Sealed} (hfirst : first ∈ deployment.sealed)
    (hsecond : second ∈ deployment.sealed)
    (hnonce : first.state.nonce = second.state.nonce) : first = second :=
  List.inj_on_of_nodup_map hcoherent.nonces hfirst hsecond hnonce

theorem Coherent.idle_of_not_started (hcoherent : Coherent host deployment outputs)
    (hprocess : process ∉ deployment.started) :
    ∀ reached ∈ outputs, reached.process ≠ process := by
  rintro reached hreached rfl
  have hpast := (hcoherent.reached reached hreached).past
  rw [hcoherent.quiet _ hprocess] at hpast
  cases hpast

/-! ## What grows -/

/-- The deployment moved on: nothing sealed, drawn or taken was lost. -/
structure Later (deployment later : Deployment) : Prop where
  now : deployment.now ≤ later.now
  sealed : deployment.sealed ⊆ later.sealed
  drawn : deployment.drawn ⊆ later.drawn
  taken : ∀ state, Taken deployment state → Taken later state

theorem Later.accepted (hlater : Later deployment later) {request : Request}
    {state : DownstreamRequestState}
    (haccepted : Accepted deployment request state) :
    Accepted later request state := by
  obtain ⟨sealed, hsealed, hstate⟩ := haccepted.sealed
  exact ⟨⟨sealed, hlater.sealed hsealed, hstate⟩, haccepted.presents⟩

theorem Continues.mono {now next : ℕ} {previous : Option Previous}
    (hcontinues : Continues now outputs process previous) (hnow : now ≤ next) :
    Continues next outputs process previous where
  entered := hcontinues.entered
  short := hcontinues.short
  window round hround :=
    (hcontinues.window round hround).trans (Nat.add_le_add_right hnow _)

theorem SealedSound.mono {now next : ℕ} {sealed : Sealed}
    (hsound : SealedSound host now sealed) (hnow : now ≤ next) :
    SealedSound host next sealed :=
  { hsound with
    window := hsound.window.trans (Nat.add_le_add_right hnow _) }

theorem PhaseSound.mono {phase : Phase}
    (hsound : PhaseSound host deployment outputs process phase)
    (hlater : Later deployment later)
    (hfree : ∀ sealed ∈ later.sealed, sealed ∈ deployment.sealed ∨
      grip phase ≠ some (false, sealed.state.nonce)) :
    PhaseSound host later outputs process phase := by
  cases phase with
  | idle => trivial
  | ended => trivial
  | verified request state => exact hlater.accepted hsound
  | claiming request state responses =>
      exact ⟨hlater.accepted hsound.1, hsound.2⟩
  | claimed request state responses =>
      obtain ⟨haccepted, hresume, htaken, hunused⟩ := hsound
      exact ⟨hlater.accepted haccepted, hresume, hlater.taken state htaken, hunused⟩
  | operating request previous capture =>
      exact ⟨hsound.1.mono hlater.now, hsound.2⟩
  | sealing request capture state =>
      obtain ⟨previous, since, hsealing⟩ := hsound
      refine ⟨previous, since, hsealing.continues.mono hlater.now,
        hsealing.captured, hsealing.sealing, hsealing.since.trans hlater.now,
        hsealing.uuid, hlater.drawn hsealing.drawn, ?_⟩
      intro sealed hsealed hnonce
      rcases hfree sealed hsealed with hknown | hother
      · exact hsealing.fresh sealed hknown hnonce
      · exact hother (by rw [grip, hnonce])

theorem ReachedSound.mono {reached : Reached}
    (hsound : ReachedSound host deployment reached)
    (hlater : Later deployment later)
    (hpast : settled (later.phase reached.process) = true) :
    ReachedSound host later reached where
  accepted := hlater.accepted hsound.accepted
  responses := hsound.responses
  timely := hsound.timely
  taken := hlater.taken _ hsound.taken
  past := hpast

/-- A change of the clock, the claims and the drawn nonces. -/
theorem Coherent.mono (hcoherent : Coherent host deployment outputs)
    (hlater : Later deployment later) (hclock : later.now ≤ lastInstant)
    (hsealed : later.sealed = deployment.sealed)
    (hphase : later.phase = deployment.phase)
    (hstarted : deployment.started ⊆ later.started)
    (hfresh : ∀ process state, awaiting (deployment.phase process) = some state →
      later.now < state.expiresAt) :
    Coherent host later outputs where
  clock := hclock
  quiet process hprocess := by
    rw [hphase]
    exact hcoherent.quiet process fun hknown => hprocess (hstarted hknown)
  sealed := by
    rw [hsealed]
    exact fun sealed hmem => (hcoherent.sealed sealed hmem).mono hlater.now
  drawn := by
    rw [hsealed]
    exact fun sealed hmem => hlater.drawn (hcoherent.drawn sealed hmem)
  closed := by
    rw [hsealed, hphase]
    exact hcoherent.closed
  nonces := by
    rw [hsealed]
    exact hcoherent.nonces
  blobs := by
    rw [hsealed]
    exact hcoherent.blobs
  processes := by
    rw [hsealed]
    exact hcoherent.processes
  phases process := by
    rw [hphase]
    refine (hcoherent.phases process).mono hlater fun sealed hmem => .inl ?_
    rwa [hsealed] at hmem
  exclusive := by
    rw [hphase]
    exact hcoherent.exclusive
  fresh := by
    rw [hphase]
    exact hfresh
  once := hcoherent.once
  reached reached hmem := by
    have hsound := hcoherent.reached reached hmem
    refine hsound.mono hlater ?_
    rw [hphase]
    exact hsound.past
  lineage := by
    rw [hsealed]
    exact hcoherent.lineage

/-! ## One process moves -/

theorem move_self (phase : Phase) :
    (deployment.move process phase).phase process = phase := by
  simp only [Deployment.move, Function.update_self]

theorem move_of_ne (phase : Phase) {other : ℕ} (hother : other ≠ process) :
    (deployment.move process phase).phase other = deployment.phase other := by
  simp only [Deployment.move, Function.update_of_ne hother]

theorem later_move (phase : Phase) :
    Later deployment (deployment.move process phase) :=
  ⟨le_rfl, fun _ => id, fun _ => id, fun _ => id⟩

/-- A live process takes a phase that is sound and whose nonce nobody else
holds. -/
theorem Coherent.move (hcoherent : Coherent host deployment outputs)
    {phase : Phase} (hstarted : process ∈ deployment.started)
    (hlive : deployment.phase process ≠ .ended)
    (hsound : PhaseSound host deployment outputs process phase)
    (hgrip : ∀ held, grip phase = some held → ∀ other, other ≠ process →
      grip (deployment.phase other) ≠ some held)
    (hfresh : ∀ state, awaiting phase = some state →
      deployment.now < state.expiresAt)
    (hpast : settled (deployment.phase process) = true → settled phase = true) :
    Coherent host (deployment.move process phase) outputs where
  clock := hcoherent.clock
  quiet other hother := by
    have hne : other ≠ process := fun hsame => hother (hsame ▸ hstarted)
    exact (move_of_ne phase hne).trans (hcoherent.quiet other hother)
  sealed := hcoherent.sealed
  drawn := hcoherent.drawn
  closed sealed hsealed := by
    have hclosed := hcoherent.closed sealed hsealed
    have hne : sealed.process ≠ process := fun hsame => hlive (hsame ▸ hclosed)
    exact (move_of_ne phase hne).trans hclosed
  nonces := hcoherent.nonces
  blobs := hcoherent.blobs
  processes := hcoherent.processes
  phases other := by
    by_cases hsame : other = process
    · subst hsame
      rw [move_self]
      exact hsound.mono (later_move phase) fun _ => .inl
    · rw [move_of_ne _ hsame]
      exact (hcoherent.phases other).mono (later_move phase) fun _ => .inl
  exclusive first second held hfirst hsecond := by
    by_cases hmoved : first = process
    · by_cases hother : second = process
      · rw [hmoved, hother]
      · subst hmoved
        rw [move_self] at hfirst
        rw [move_of_ne _ hother] at hsecond
        exact absurd hsecond (hgrip held hfirst second hother)
    · rw [move_of_ne _ hmoved] at hfirst
      by_cases hother : second = process
      · subst hother
        rw [move_self] at hsecond
        exact absurd hfirst (hgrip held hsecond first hmoved)
      · rw [move_of_ne _ hother] at hsecond
        exact hcoherent.exclusive first second held hfirst hsecond
  fresh other state hstate := by
    by_cases hsame : other = process
    · subst hsame
      rw [move_self] at hstate
      exact hfresh state hstate
    · rw [move_of_ne _ hsame] at hstate
      exact hcoherent.fresh other state hstate
  once := hcoherent.once
  reached reached hreached := by
    have hreach := hcoherent.reached reached hreached
    refine hreach.mono (later_move phase) ?_
    by_cases hsame : reached.process = process
    · rw [hsame, move_self]
      exact hpast (hsame ▸ hreach.past)
    · rw [move_of_ne _ hsame]
      exact hreach.past
  lineage := hcoherent.lineage

theorem Coherent.started (hcoherent : Coherent host deployment outputs)
    (hlive : deployment.phase process ≠ .idle) :
    process ∈ deployment.started := by
  by_contra hprocess
  exact hlive (hcoherent.quiet process hprocess)

/-- A phase that holds nothing and awaits nothing. -/
theorem Coherent.end (hcoherent : Coherent host deployment outputs)
    (hlive : deployment.phase process ≠ .ended)
    (hstarted : deployment.phase process ≠ .idle) :
    Coherent host (deployment.move process .ended) outputs :=
  hcoherent.move (hcoherent.started hstarted) hlive trivial nofun nofun
    fun _ => rfl

/-! ## The claim of a nonce -/

theorem serveClaim_cases (deployment : Deployment) (key : JsString × JsString) :
    (read deployment.used deployment.now key = none ∧
        deployment.serveClaim key = (true, { deployment with
          used := ExpiringStore.put deployment.used key (some ())
            (some (deployment.now + REQUEST_STATE_TTL_MS)) })) ∨
      (read deployment.used deployment.now key ≠ none ∧
        deployment.serveClaim key = (false, deployment)) := by
  rcases compareAndSet_cases deployment.used deployment.now key none (some ())
    (some (deployment.now + REQUEST_STATE_TTL_MS)) with ⟨hfree, hserved⟩ |
    ⟨htaken, hserved⟩
  · exact .inl ⟨hfree, by rw [Deployment.serveClaim, hserved]⟩
  · exact .inr ⟨htaken, by rw [Deployment.serveClaim, hserved]⟩

/-- What is taken is not free before it expires. -/
theorem Taken.not_free {state : DownstreamRequestState}
    (htaken : Taken deployment state) (hfresh : deployment.now < state.expiresAt) :
    read deployment.used deployment.now (claimKey state) ≠ none := by
  obtain ⟨entry, instant, hentry, hinstant, hexpires⟩ := htaken
  have hlive : entry.live deployment.now = true := by
    rw [ExpiringStore.Entry.live, hinstant, Option.all_some, decide_eq_true_eq]
    exact hfresh.trans_le hexpires
  rw [ExpiringStore.read, hentry]
  simp only [hlive, if_true]
  exact Option.some_ne_none _

/-- A claim that won outlives the state it was made for. -/
theorem taken_put {used : ExpiringStore.Store (JsString × JsString) Unit}
    {state : DownstreamRequestState}
    (hwindow : state.expiresAt ≤ deployment.now + REQUEST_STATE_TTL_MS) :
    Taken { deployment with
      used := ExpiringStore.put used (claimKey state) (some ())
        (some (deployment.now + REQUEST_STATE_TTL_MS)) } state :=
  ⟨⟨(), some (deployment.now + REQUEST_STATE_TTL_MS)⟩, _, put_self _ _ _ _, rfl,
    hwindow⟩

theorem later_serveClaim (deployment : Deployment) (key : JsString × JsString) :
    Later deployment (deployment.serveClaim key).2 := by
  rcases serveClaim_cases deployment key with ⟨hfree, hserved⟩ |
    ⟨-, hserved⟩
  · rw [hserved]
    refine ⟨le_rfl, fun _ => id, fun _ => id, fun state htaken => ?_⟩
    by_cases hkey : claimKey state = key
    · subst hkey
      apply taken_put
      by_contra hlate
      have hnow : deployment.now < state.expiresAt := by omega
      exact htaken.not_free hnow hfree
    · obtain ⟨entry, instant, hentry, hrest⟩ := htaken
      exact ⟨entry, instant, (put_of_ne _ hkey _ _).trans hentry, hrest⟩
  · rw [hserved]
    exact ⟨le_rfl, fun _ => id, fun _ => id, fun _ => id⟩

theorem serveClaim_same (deployment : Deployment) (key : JsString × JsString) :
    (deployment.serveClaim key).2 = { deployment with
      used := (deployment.serveClaim key).2.used } := by
  rcases serveClaim_cases deployment key with ⟨-, hserved⟩ |
    ⟨-, hserved⟩ <;> rw [hserved]

theorem Coherent.serveClaim (hcoherent : Coherent host deployment outputs)
    (key : JsString × JsString) :
    Coherent host (deployment.serveClaim key).2 outputs := by
  have hsame := serveClaim_same deployment key
  refine hcoherent.mono (later_serveClaim deployment key) ?_ ?_ ?_ ?_ ?_
  · rw [hsame]
    exact hcoherent.clock
  · rw [hsame]
  · rw [hsame]
  · rw [hsame]
    exact fun _ => id
  · rw [hsame]
    exact hcoherent.fresh

/-- Two accepted states with one nonce are one. -/
theorem Coherent.same_state (hcoherent : Coherent host deployment outputs)
    {request other : Request} {first second : DownstreamRequestState}
    (hfirst : Accepted deployment request first)
    (hsecond : Accepted deployment other second)
    (hnonce : first.nonce = second.nonce) : first = second := by
  obtain ⟨sealed, hsealed, rfl⟩ := hfirst.sealed
  obtain ⟨again, hagain, rfl⟩ := hsecond.sealed
  rw [hcoherent.unique hsealed hagain hnonce]

/-- A nonce that can be claimed was neither entered nor claimed. -/
theorem Coherent.unclaimed (hcoherent : Coherent host deployment outputs)
    {request : Request} {state : DownstreamRequestState}
    (haccepted : Accepted deployment request state)
    (hfresh : deployment.now < state.expiresAt)
    (hfree : read deployment.used deployment.now (claimKey state) = none) :
    (∀ reached ∈ outputs, reached.state.nonce ≠ state.nonce) ∧
      ∀ other, grip (deployment.phase other) ≠ some (true, state.nonce) := by
  constructor
  · intro reached hreached hnonce
    have hreach := hcoherent.reached reached hreached
    have hstate := hcoherent.same_state hreach.accepted haccepted hnonce
    exact (hstate ▸ hreach.taken).not_free hfresh hfree
  · intro other hheld
    have hphase := hcoherent.phases other
    cases hother : deployment.phase other with
    | claimed asking claimed responses =>
        rw [hother] at hheld hphase
        simp only [grip, Option.some.injEq, Prod.mk.injEq, true_and] at hheld
        obtain ⟨hclaimed, -, htaken, -⟩ := hphase
        have hstate := hcoherent.same_state hclaimed haccepted hheld
        exact (hstate ▸ htaken).not_free hfresh hfree
    | sealing asking capture sealing =>
        rw [hother] at hheld
        simp only [grip, Option.some.injEq, Prod.mk.injEq, Bool.false_eq_true,
          false_and] at hheld
    | idle => rw [hother] at hheld; cases hheld
    | verified asking verified => rw [hother] at hheld; cases hheld
    | claiming asking claiming responses => rw [hother] at hheld; cases hheld
    | operating asking previous capture => rw [hother] at hheld; cases hheld
    | ended => rw [hother] at hheld; cases hheld

/-- The window of an accepted state. -/
theorem Coherent.window (hcoherent : Coherent host deployment outputs)
    {request : Request} {state : DownstreamRequestState}
    (haccepted : Accepted deployment request state) :
    state.expiresAt ≤ deployment.now + REQUEST_STATE_TTL_MS := by
  obtain ⟨sealed, hsealed, rfl⟩ := haccepted.sealed
  exact (hcoherent.sealed sealed hsealed).window

theorem Coherent.claim (hcoherent : Coherent host deployment outputs)
    {request : Request} {state : DownstreamRequestState}
    {responses : OrderedMap JsString Json}
    (hphase : deployment.phase process = .claiming request state responses)
    {emitted : List Reached}
    (hstep : step host deployment (.claim process) = some (later, emitted)) :
    Coherent host later (outputs ++ emitted) := by
  have hserved := hcoherent.serveClaim (claimKey state)
  have hgrows := later_serveClaim deployment (claimKey state)
  have hsame := serveClaim_same deployment (claimKey state)
  have hsound := hcoherent.phases process
  have hfresh := hcoherent.fresh process state (by rw [hphase]; rfl)
  rw [hphase] at hsound
  obtain ⟨haccepted, hresume⟩ := hsound
  have hservedPhase : (deployment.serveClaim (claimKey state)).2.phase =
      deployment.phase := by rw [hsame]
  have hservedNow : (deployment.serveClaim (claimKey state)).2.now =
      deployment.now := by rw [hsame]
  simp only [step, hphase] at hstep
  rcases serveClaim_cases deployment (claimKey state) with
    ⟨hfree, hclaim⟩ | ⟨-, hclaim⟩
  · obtain ⟨hunreached, hungripped⟩ :=
      hcoherent.unclaimed haccepted hfresh hfree
    rw [hclaim] at hstep hserved hgrows hservedPhase hservedNow
    cases hstep
    rw [List.append_nil]
    refine hserved.move ?_ ?_ ⟨hgrows.accepted haccepted, hresume,
      taken_put (hcoherent.window haccepted), hunreached⟩ ?_ ?_ ?_
    · exact hserved.started (by rw [hservedPhase, hphase]; nofun)
    · rw [hservedPhase, hphase]
      nofun
    · rintro held hheld other -
      cases hheld
      rw [hservedPhase]
      exact hungripped other
    · intro awaited hawaited
      cases hawaited
      exact hfresh
    · rw [hservedPhase, hphase]
      nofun
  · rw [hclaim] at hstep hserved hservedPhase
    cases hstep
    rw [List.append_nil]
    exact hserved.end (by rw [hservedPhase, hphase]; nofun)
      (by rw [hservedPhase, hphase]; nofun)

/-! ## Reaching the operation -/

/-- A process that claimed a nonce reaches its operation. -/
theorem Coherent.enter (hcoherent : Coherent host deployment outputs)
    {request : Request} {state : DownstreamRequestState}
    {responses : OrderedMap JsString Json}
    (hphase : deployment.phase process = .claimed request state responses) :
    Coherent host (deployment.move process
      (.operating request (some state.previous) none))
      (outputs ++ [⟨process, request, state, responses, deployment.now⟩]) := by
  have hsound := hcoherent.phases process
  have hfresh := hcoherent.fresh process state (by rw [hphase]; rfl)
  rw [hphase] at hsound
  obtain ⟨haccepted, hresume, htaken, hunreached⟩ := hsound
  have hunsettled : ∀ reached ∈ outputs, reached.process ≠ process := by
    rintro reached hreached rfl
    have hpast := (hcoherent.reached reached hreached).past
    rw [hphase] at hpast
    cases hpast
  have hunsealed : ∀ sealed ∈ deployment.sealed, sealed.process ≠ process := by
    rintro sealed hsealed rfl
    have hclosed := hcoherent.closed sealed hsealed
    rw [hphase] at hclosed
    cases hclosed
  obtain ⟨sealed, hsealed, hstate⟩ := haccepted.sealed
  have hformed := (hcoherent.sealed sealed hsealed).formed
  have hcontinues : Continues deployment.now outputs process
      (some state.previous) := by
    refine ⟨fun reached hreached hsame =>
      absurd hsame (hunsettled reached hreached), ?_, ?_⟩
    · rintro _ ⟨⟩
      rw [hstate, wellFormed] at hformed
      simp only [Bool.and_eq_true, decide_eq_true_eq] at hformed
      have hstates : state.requestState.toList.length ≤ 1 := by
        cases state.requestState <;> simp
      have hshort := hformed.1.1.1.2
      simp only [DownstreamRequestState.previous]
      omega
    · rintro _ ⟨⟩
      exact hcoherent.window haccepted
  have hmoved : Coherent host (deployment.move process
      (.operating request (some state.previous) none)) outputs := by
    refine hcoherent.move ?_ ?_ ⟨hcontinues, by simp⟩ (by simp [grip])
      (by simp [awaiting]) fun _ => rfl
    · exact hcoherent.started (by simp [hphase])
    · rw [hphase]
      simp
  constructor
  case clock => exact hmoved.clock
  case quiet => exact hmoved.quiet
  case sealed => exact hmoved.sealed
  case drawn => exact hmoved.drawn
  case closed => exact hmoved.closed
  case nonces => exact hmoved.nonces
  case blobs => exact hmoved.blobs
  case processes => exact hmoved.processes
  case exclusive => exact hmoved.exclusive
  case fresh => exact hmoved.fresh
  case phases =>
    intro other
    have hother := hmoved.phases other
    by_cases hsame : other = process
    · subst hsame
      rw [move_self]
      refine ⟨⟨fun reached hreached hprocess => ?_, hcontinues.short,
        hcontinues.window⟩, by simp⟩
      rcases List.mem_append.mp hreached with hold | hnew
      · exact absurd hprocess (hunsettled reached hold)
      · rw [List.mem_singleton.mp hnew]
    rw [move_of_ne _ hsame] at hother ⊢
    have hentered : ∀ {previous}, Continues deployment.now outputs other previous →
        Continues deployment.now
          (outputs ++ [⟨process, request, state, responses, deployment.now⟩]) other
          previous := by
      rintro previous ⟨hknown, hshort, hwindow⟩
      refine ⟨fun reached hreached hprocess => ?_, hshort, hwindow⟩
      rcases List.mem_append.mp hreached with hold | hnew
      · exact hknown reached hold hprocess
      · rw [List.mem_singleton.mp hnew] at hprocess
        exact absurd hprocess.symm hsame
    cases hkind : deployment.phase other with
    | idle => trivial
    | ended => trivial
    | verified asking verified =>
        rw [hkind] at hother
        exact hother
    | claiming asking claiming answers =>
        rw [hkind] at hother
        exact hother
    | claimed asking claimed answers =>
        rw [hkind] at hother
        refine ⟨hother.1, hother.2.1, hother.2.2.1, fun reached hreached => ?_⟩
        rcases List.mem_append.mp hreached with hold | hnew
        · exact hother.2.2.2 reached hold
        · rw [List.mem_singleton.mp hnew]
          intro hnonce
          apply hsame
          refine hcoherent.exclusive other process (true, state.nonce) ?_ ?_
          · rw [hkind, grip, hnonce]
          · rw [hphase, grip]
    | operating asking previous capture =>
        rw [hkind] at hother
        exact ⟨hentered hother.1, hother.2⟩
    | sealing asking capture sealing =>
        rw [hkind] at hother
        obtain ⟨previous, since, hsealing⟩ := hother
        exact ⟨previous, since, { hsealing with
          continues := hentered hsealing.continues }⟩
  case once =>
    rw [List.map_append, List.map_singleton, List.nodup_append]
    refine ⟨hcoherent.once, List.nodup_singleton _, ?_⟩
    rintro nonce hnonce _ hnew rfl
    obtain ⟨reached, hreached, hsame⟩ := List.mem_map.mp hnonce
    exact hunreached reached hreached (hsame.trans (List.mem_singleton.mp hnew))
  case reached =>
    intro reached hreached
    rcases List.mem_append.mp hreached with hold | hnew
    · exact hmoved.reached reached hold
    · rw [List.mem_singleton.mp hnew]
      refine ⟨(later_move _).accepted haccepted, hresume, hfresh,
        (later_move _).taken _ htaken, ?_⟩
      rw [move_self]
      rfl
  case lineage =>
    intro other hother reached hreached hprocess
    rcases List.mem_append.mp hreached with hold | hnew
    · exact hcoherent.lineage other hother reached hold hprocess
    · rw [List.mem_singleton.mp hnew] at hprocess
      exact absurd hprocess.symm (hunsealed other hother)

/-! ## Sealing a state -/

/-- A state is sealed once, by the process that drew its nonce. -/
theorem Coherent.seal (hcoherent : Coherent host deployment outputs)
    (hdigest : ∀ text, hexDigest (host.sha256Hex text) = true)
    {request : Request} {capture : Capture} {state : DownstreamRequestState}
    (hphase : deployment.phase process = .sealing request capture state)
    {blob : JsString} {given : Bool}
    (hblob : ∀ sealed ∈ deployment.sealed, sealed.blob ≠ blob)
    (hgiven : given = true → blob.length ≤ MAX_RELAY_STATE_CHARS) :
    Coherent host { deployment.move process .ended with
      sealed := ⟨process, request, capture, blob, given, state⟩ ::
        deployment.sealed } outputs := by
  have hsound := hcoherent.phases process
  rw [hphase] at hsound
  obtain ⟨previous, since, hsealing⟩ := hsound
  have hended : Coherent host (deployment.move process .ended) outputs :=
    hcoherent.end (by rw [hphase]; nofun) (by rw [hphase]; nofun)
  have hunsealed : ∀ sealed ∈ deployment.sealed, sealed.process ≠ process := by
    rintro sealed hsealed rfl
    have hclosed := hcoherent.closed sealed hsealed
    rw [hphase] at hclosed
    cases hclosed
  have hwindow : state.expiresAt ≤ deployment.now + REQUEST_STATE_TTL_MS := by
    rw [hsealing.sealing.expiresAt]
    have hsince := hsealing.since
    cases hprevious : previous with
    | none =>
        simp only [Option.map_none, Option.getD_none]
        omega
    | some round => exact hsealing.continues.window round hprevious
  have hsafe : state.expiresAt ≤ MAX_SAFE_INTEGER := by
    have hclock := hcoherent.clock
    simp only [lastInstant, REQUEST_STATE_TTL_MS, MAX_SAFE_INTEGER] at *
    omega
  have hnew : SealedSound host deployment.now
      ⟨process, request, capture, blob, given, state⟩ :=
    ⟨hsealing.sealing.wellFormed hsealing.captured.captured hdigest hsealing.uuid
      hsafe hsealing.continues.short, hsealing.sealing.minted,
      hsealing.sealing.connector, hsealing.sealing.inputs, hsealing.captured,
      hgiven, hwindow⟩
  have hgrows : Later (deployment.move process .ended)
      { deployment.move process .ended with
        sealed := ⟨process, request, capture, blob, given, state⟩ ::
          deployment.sealed } :=
    ⟨le_rfl, fun _ => List.mem_cons_of_mem _, fun _ => id, fun _ => id⟩
  constructor
  case clock => exact hcoherent.clock
  case quiet => exact hended.quiet
  case sealed =>
    intro sealed hsealed
    rcases List.mem_cons.mp hsealed with rfl | hold
    · exact hnew
    · exact hcoherent.sealed sealed hold
  case drawn =>
    intro sealed hsealed
    rcases List.mem_cons.mp hsealed with rfl | hold
    · exact hsealing.drawn
    · exact hcoherent.drawn sealed hold
  case closed =>
    intro sealed hsealed
    rcases List.mem_cons.mp hsealed with rfl | hold
    · exact move_self _
    · exact hended.closed sealed hold
  case nonces =>
    rw [List.map_cons, List.nodup_cons]
    refine ⟨fun hmem => ?_, hcoherent.nonces⟩
    obtain ⟨sealed, hsealed, hnonce⟩ := List.mem_map.mp hmem
    exact hsealing.fresh sealed hsealed hnonce
  case blobs =>
    rw [List.map_cons, List.nodup_cons]
    refine ⟨fun hmem => ?_, hcoherent.blobs⟩
    obtain ⟨sealed, hsealed, hsame⟩ := List.mem_map.mp hmem
    exact hblob sealed hsealed hsame
  case processes =>
    rw [List.map_cons, List.nodup_cons]
    refine ⟨fun hmem => ?_, hcoherent.processes⟩
    obtain ⟨sealed, hsealed, hsame⟩ := List.mem_map.mp hmem
    exact hunsealed sealed hsealed hsame
  case phases =>
    intro other
    by_cases hother : other = process
    · subst hother
      have hlast : (deployment.move other .ended).phase other = .ended :=
        move_self _
      change PhaseSound _ _ _ _ ((deployment.move other .ended).phase other)
      rw [hlast]
      trivial
    refine (hended.phases other).mono hgrows fun sealed hsealed => ?_
    rcases List.mem_cons.mp hsealed with rfl | hold
    · refine .inr fun hheld => hother ?_
      rw [move_of_ne _ hother] at hheld
      refine hcoherent.exclusive other process _ hheld ?_
      rw [hphase, grip]
    · exact .inl hold
  case exclusive => exact hended.exclusive
  case fresh => exact hended.fresh
  case once => exact hcoherent.once
  case reached =>
    exact fun reached hreached =>
      (hended.reached reached hreached).mono hgrows
        (hended.reached reached hreached).past
  case lineage =>
    intro sealed hsealed reached hreached hprocess
    rcases List.mem_cons.mp hsealed with rfl | hold
    · have hentered := hsealing.continues.entered reached hreached hprocess
      rw [hsealing.sealing.round, hsealing.sealing.expiresAt, hentered]
      exact ⟨rfl, rfl⟩
    · exact hcoherent.lineage sealed hold reached hreached hprocess

end

end Connecta.Inputs
