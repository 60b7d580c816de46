import Connecta.Auth.AuthRounds

/-!
# Runs of authorization rounds

The invariant of the rounds: what is minted carries every read of its chain, its
claim stays taken until it expires, and no link is in the hands of two processes.
It holds as long as no state expires under a presentation that was accepted.
-/

namespace Connecta.Auth

open Connecta.Runtime
open Connecta.Transition
open Connecta.ExpiringStore (compareAndSet compareAndSet_cases read put_self put_of_ne)
open Connecta.Foundation (OrderedMap)
open Connecta.Inputs (MAX_INPUT_ROUNDS REQUEST_STATE_TTL_MS)

/-! ## The invariant -/

/-- The claim of a state stays taken until the state expires. -/
def Taken (deployment : Deployment) (state : AuthRequestState) : Prop :=
  ∃ entry instant, deployment.used (claimKey state) = some entry ∧
    entry.expiresAt = some instant ∧ state.expiresAt ≤ instant

/-- The state a process was resumed with, absent for an original call. -/
def resumed (outputs : List Started) (process : ℕ) : Option AuthRequestState :=
  (outputs.find? fun started => started.process = process).map Started.state

variable (sha256 : List ℕ → Option JsString)

/-- The calls of an attempt agree with the reads it was resumed with. -/
def Carries (previous : Option AuthRequestState) (entered : List EnteredCall) : Prop :=
  ∀ call ∈ entered, ∀ state ∈ previous, ∀ read ∈ state.reads,
    read.address = call.address → classificationDigest sha256 call.definition = read.digest

/-- How a state came about: the attempt, what it entered and what it went on from. -/
structure MintedSound (now : ℕ) (outputs : List Started) (minted : Minted) : Prop where
  made : ∃ connector digest facts nonce id,
    minted.state = mintState minted.request (resumed outputs minted.process) connector digest
      facts nonce minted.instant ∧
    facts = authRecoveryFacts sha256 minted.invocations id ∧ facts.unsafeEntered = false ∧
    requestDigest sha256 minted.request.tool minted.request.args = some digest
  carries : Carries sha256 (resumed outputs minted.process) minted.invocations.entered
  round : minted.state.round ≤ MAX_INPUT_ROUNDS
  window : minted.state.expiresAt ≤ now + REQUEST_STATE_TTL_MS

/-- A state that was minted, and is presented under its binding. -/
structure Accepted (deployment : Deployment) (request : Request)
    (state : AuthRequestState) : Prop where
  minted : ∃ minted ∈ deployment.minted, minted.state = state
  formed : wellFormed state = true
  presented : presentedBy request state = true

/-- What an attempt goes on from, and what it entered so far. -/
structure Attempt (now : ℕ) (outputs : List Started) (process : ℕ) (request : Request)
    (previous : Option AuthRequestState) (invocations : RequestInvocations) : Prop where
  source : previous = resumed outputs process
  quiet : enters request.tool = false → invocations.entered = []
  bound : ∀ state ∈ previous, ∀ read ∈ state.reads,
    invocations.retryReads.get? read.address = some read.digest
  carries : Carries sha256 previous invocations.entered
  window : ∀ state ∈ previous, state.expiresAt ≤ now + REQUEST_STATE_TTL_MS

def PhaseSound (deployment : Deployment) (outputs : List Started) (process : ℕ) :
    Phase → Prop
  | .verified request state => Accepted deployment request state
  | .claiming request state =>
      Accepted deployment request state ∧ namesCall sha256 request state = true
  | .rechecking request state checked pending =>
      Accepted deployment request state ∧ namesCall sha256 request state = true ∧
        Taken deployment state ∧ (∀ started ∈ outputs, started.state.nonce ≠ state.nonce) ∧
        state.reads = checked.map Prod.fst ++ pending ∧
        ∀ found ∈ checked, stillRead sha256 found.1 found.2 = true
  | .running request previous invocations =>
      Attempt sha256 deployment.now outputs process request previous invocations
  | .idle => True
  | .ended => True

/-- The nonce a process alone holds. -/
def grip : Phase → Option JsString
  | .rechecking _ state _ _ => some state.nonce
  | _ => none

/-- The operation was started, or needs not be. -/
def settled : Phase → Bool
  | .running .. => true
  | .ended => true
  | _ => false

structure StartedSound (deployment : Deployment) (started : Started) : Prop where
  accepted : Accepted deployment started.request started.state
  names : namesCall sha256 started.request started.state = true
  timely : started.instant < started.state.expiresAt
  checked : started.checked.map Prod.fst = started.state.reads
  still : ∀ found ∈ started.checked, stillRead sha256 found.1 found.2 = true
  taken : Taken deployment started.state
  past : settled (deployment.phase started.process) = true

structure Coherent (deployment : Deployment) (outputs : List Started) : Prop where
  quiet : ∀ process, process ∉ deployment.started → deployment.phase process = .idle
  minted : ∀ minted ∈ deployment.minted,
    MintedSound sha256 deployment.now outputs minted
  drawn : ∀ minted ∈ deployment.minted, minted.state.nonce ∈ deployment.drawn
  closed : ∀ minted ∈ deployment.minted, deployment.phase minted.process = .ended
  nonces : (deployment.minted.map fun minted => minted.state.nonce).Nodup
  processes : (deployment.minted.map Minted.process).Nodup
  phases : ∀ process,
    PhaseSound sha256 deployment outputs process (deployment.phase process)
  exclusive : ∀ process other nonce, grip (deployment.phase process) = some nonce →
    grip (deployment.phase other) = some nonce → process = other
  fresh : ∀ process state, awaiting (deployment.phase process) = some state →
    deployment.now < state.expiresAt
  once : (outputs.map fun started => started.state.nonce).Nodup
  apart : (outputs.map Started.process).Nodup
  started : ∀ started ∈ outputs, StartedSound sha256 deployment started

section

variable {sha256 : List ℕ → Option JsString} {deployment later : Deployment}
variable {outputs : List Started} {process : ℕ}

/-! ## States and their makers -/

@[simp]
theorem mintState_nonce (request : Request) (previous : Option AuthRequestState)
    (connector digest : JsString) (facts : RecoveryFacts) (nonce : JsString) (now : ℕ) :
    (mintState request previous connector digest facts nonce now).nonce = nonce := by
  simp only [AuthRequestState.nonce, mintState, List.getLast?_append, List.getLast?_singleton,
    Option.some_or, Option.getD_some]

/-- Each address stands once among the reads of a minted state. -/
theorem MintedSound.reads_nodup {now : ℕ} {minted : Minted}
    (hsound : MintedSound sha256 now outputs minted) :
    (minted.state.reads.map ReplayRead.address).Nodup := by
  obtain ⟨connector, digest, facts, nonce, id, hmade, -⟩ := hsound.made
  rw [hmade]
  exact mergeReads_nodup _

theorem resumed_of_none (hnone : ∀ started ∈ outputs, started.process ≠ process) :
    resumed outputs process = none := by
  rw [resumed, Option.map_eq_none_iff, List.find?_eq_none]
  intro started hstarted hsame
  exact hnone started hstarted (decide_eq_true_eq.mp hsame)

theorem resumed_append_of_ne (outputs : List Started) {started : Started}
    (hother : started.process ≠ process) :
    resumed (outputs ++ [started]) process = resumed outputs process := by
  have hskip : [started].find? (fun started => started.process = process) = none := by
    rw [List.find?_singleton, if_neg (by simpa using hother)]
  rw [resumed, resumed, List.find?_append, hskip, Option.or_none]

theorem resumed_append_self (started : Started)
    (hnone : ∀ known ∈ outputs, known.process ≠ started.process) :
    resumed (outputs ++ [started]) started.process = some started.state := by
  have hearlier := resumed_of_none hnone
  rw [resumed, Option.map_eq_none_iff] at hearlier
  rw [resumed, List.find?_append, hearlier, Option.none_or, List.find?_singleton,
    if_pos (by simp), Option.map_some]

theorem resumed_eq (hapart : (outputs.map Started.process).Nodup) {started : Started}
    (hstarted : started ∈ outputs) :
    resumed outputs started.process = some started.state := by
  rw [resumed]
  cases hfind : outputs.find? fun other => other.process = started.process with
  | none =>
      have hnone := List.find?_eq_none.mp hfind started hstarted
      simp at hnone
  | some found =>
      have hsame := List.find?_some hfind
      rw [decide_eq_true_eq] at hsame
      rw [List.inj_on_of_nodup_map hapart (List.mem_of_find?_eq_some hfind) hstarted hsame,
        Option.map_some]

/-- States with one last link were minted once. -/
theorem Coherent.unique (hcoherent : Coherent sha256 deployment outputs)
    {first second : Minted} (hfirst : first ∈ deployment.minted)
    (hsecond : second ∈ deployment.minted)
    (hnonce : first.state.nonce = second.state.nonce) : first = second :=
  List.inj_on_of_nodup_map hcoherent.nonces hfirst hsecond hnonce

theorem Coherent.same_state (hcoherent : Coherent sha256 deployment outputs)
    {request other : Request} {first second : AuthRequestState}
    (hfirst : Accepted deployment request first) (hsecond : Accepted deployment other second)
    (hnonce : first.nonce = second.nonce) : first = second := by
  obtain ⟨minted, hminted, rfl⟩ := hfirst.minted
  obtain ⟨again, hagain, rfl⟩ := hsecond.minted
  rw [hcoherent.unique hminted hagain hnonce]

theorem Coherent.window (hcoherent : Coherent sha256 deployment outputs)
    {request : Request} {state : AuthRequestState}
    (haccepted : Accepted deployment request state) :
    state.expiresAt ≤ deployment.now + REQUEST_STATE_TTL_MS := by
  obtain ⟨minted, hminted, rfl⟩ := haccepted.minted
  exact (hcoherent.minted minted hminted).window

/-- A process that has yet to start started nothing. -/
theorem Coherent.unstarted (hcoherent : Coherent sha256 deployment outputs) (process : ℕ)
    (hphase : settled (deployment.phase process) = false) :
    ∀ started ∈ outputs, started.process ≠ process := by
  rintro started hstarted rfl
  have hpast := (hcoherent.started started hstarted).past
  rw [hphase] at hpast
  cases hpast

/-- A process that has yet to end minted nothing. -/
theorem Coherent.unminted (hcoherent : Coherent sha256 deployment outputs) {process : ℕ}
    (hlive : deployment.phase process ≠ .ended) :
    ∀ minted ∈ deployment.minted, minted.process ≠ process := by
  rintro minted hminted rfl
  exact hlive (hcoherent.closed minted hminted)

theorem Coherent.begun (hcoherent : Coherent sha256 deployment outputs)
    (hlive : deployment.phase process ≠ .idle) : process ∈ deployment.started := by
  by_contra hprocess
  exact hlive (hcoherent.quiet process hprocess)

/-! ## What grows -/

/-- The deployment moved on: nothing minted, drawn or taken was lost. -/
structure Later (deployment later : Deployment) : Prop where
  now : deployment.now ≤ later.now
  minted : deployment.minted ⊆ later.minted
  drawn : deployment.drawn ⊆ later.drawn
  taken : ∀ state, Taken deployment state → Taken later state

theorem Later.accepted (hlater : Later deployment later) {request : Request}
    {state : AuthRequestState} (haccepted : Accepted deployment request state) :
    Accepted later request state := by
  obtain ⟨minted, hminted, hstate⟩ := haccepted.minted
  exact ⟨⟨minted, hlater.minted hminted, hstate⟩, haccepted.formed, haccepted.presented⟩

theorem MintedSound.mono {now next : ℕ} {minted : Minted}
    (hsound : MintedSound sha256 now outputs minted) (hnow : now ≤ next) :
    MintedSound sha256 next outputs minted :=
  { hsound with window := hsound.window.trans (Nat.add_le_add_right hnow _) }

theorem PhaseSound.mono {phase : Phase}
    (hsound : PhaseSound sha256 deployment outputs process phase)
    (hlater : Later deployment later) : PhaseSound sha256 later outputs process phase := by
  cases phase with
  | idle => trivial
  | ended => trivial
  | verified request state => exact hlater.accepted hsound
  | claiming request state => exact ⟨hlater.accepted hsound.1, hsound.2⟩
  | rechecking request state checked pending =>
      obtain ⟨haccepted, hnames, htaken, hrest⟩ := hsound
      exact ⟨hlater.accepted haccepted, hnames, hlater.taken state htaken, hrest⟩
  | running request previous invocations =>
      exact { hsound with
        window := fun state hstate =>
          (hsound.window state hstate).trans (Nat.add_le_add_right hlater.now _) }

theorem StartedSound.mono {started : Started}
    (hsound : StartedSound sha256 deployment started) (hlater : Later deployment later)
    (hpast : settled (later.phase started.process) = true) :
    StartedSound sha256 later started :=
  { hsound with
    accepted := hlater.accepted hsound.accepted
    taken := hlater.taken _ hsound.taken
    past := hpast }

/-- A change of the clock, the claims and the drawn nonces. -/
theorem Coherent.mono (hcoherent : Coherent sha256 deployment outputs)
    (hlater : Later deployment later) (hminted : later.minted = deployment.minted)
    (hphase : later.phase = deployment.phase)
    (hstarted : deployment.started ⊆ later.started)
    (hfresh : ∀ process state, awaiting (deployment.phase process) = some state →
      later.now < state.expiresAt) : Coherent sha256 later outputs where
  quiet process hprocess := by
    rw [hphase]
    exact hcoherent.quiet process fun hknown => hprocess (hstarted hknown)
  minted := by
    rw [hminted]
    exact fun minted hmem => (hcoherent.minted minted hmem).mono hlater.now
  drawn := by
    rw [hminted]
    exact fun minted hmem => hlater.drawn (hcoherent.drawn minted hmem)
  closed := by
    rw [hminted, hphase]
    exact hcoherent.closed
  nonces := by
    rw [hminted]
    exact hcoherent.nonces
  processes := by
    rw [hminted]
    exact hcoherent.processes
  phases process := by
    rw [hphase]
    exact (hcoherent.phases process).mono hlater
  exclusive := by
    rw [hphase]
    exact hcoherent.exclusive
  fresh := by
    rw [hphase]
    exact hfresh
  once := hcoherent.once
  apart := hcoherent.apart
  started started hmem := by
    refine (hcoherent.started started hmem).mono hlater ?_
    rw [hphase]
    exact (hcoherent.started started hmem).past

/-! ## One process moves -/

theorem move_self (phase : Phase) :
    (deployment.move process phase).phase process = phase := by
  simp only [Deployment.move, Function.update_self]

theorem move_of_ne (phase : Phase) {other : ℕ} (hother : other ≠ process) :
    (deployment.move process phase).phase other = deployment.phase other := by
  simp only [Deployment.move, Function.update_of_ne hother]

theorem later_move (process : ℕ) (phase : Phase) :
    Later deployment (deployment.move process phase) :=
  ⟨le_rfl, fun _ => id, fun _ => id, fun _ => id⟩

/-- A live process takes a phase that is sound and whose nonce nobody else holds. -/
theorem Coherent.move (hcoherent : Coherent sha256 deployment outputs) {phase : Phase}
    (hstarted : process ∈ deployment.started) (hlive : deployment.phase process ≠ .ended)
    (hsound : PhaseSound sha256 deployment outputs process phase)
    (hgrip : ∀ nonce, grip phase = some nonce → ∀ other, other ≠ process →
      grip (deployment.phase other) ≠ some nonce)
    (hfresh : ∀ state, awaiting phase = some state → deployment.now < state.expiresAt)
    (hpast : settled (deployment.phase process) = true → settled phase = true) :
    Coherent sha256 (deployment.move process phase) outputs where
  quiet other hother := by
    have hne : other ≠ process := by
      rintro rfl
      exact hother hstarted
    exact (move_of_ne phase hne).trans (hcoherent.quiet other hother)
  minted := hcoherent.minted
  drawn := hcoherent.drawn
  closed minted hminted :=
    (move_of_ne phase (hcoherent.unminted hlive minted hminted)).trans
      (hcoherent.closed minted hminted)
  nonces := hcoherent.nonces
  processes := hcoherent.processes
  phases other := by
    by_cases hsame : other = process
    · subst hsame
      rw [move_self]
      exact hsound.mono (later_move _ phase)
    · rw [move_of_ne _ hsame]
      exact (hcoherent.phases other).mono (later_move process phase)
  exclusive first second nonce hfirst hsecond := by
    by_cases hmoved : first = process
    · by_cases hother : second = process
      · rw [hmoved, hother]
      · subst hmoved
        rw [move_self] at hfirst
        rw [move_of_ne _ hother] at hsecond
        exact absurd hsecond (hgrip nonce hfirst second hother)
    · rw [move_of_ne _ hmoved] at hfirst
      by_cases hother : second = process
      · subst hother
        rw [move_self] at hsecond
        exact absurd hfirst (hgrip nonce hsecond first hmoved)
      · rw [move_of_ne _ hother] at hsecond
        exact hcoherent.exclusive first second nonce hfirst hsecond
  fresh other state hstate := by
    by_cases hsame : other = process
    · subst hsame
      rw [move_self] at hstate
      exact hfresh state hstate
    · rw [move_of_ne _ hsame] at hstate
      exact hcoherent.fresh other state hstate
  once := hcoherent.once
  apart := hcoherent.apart
  started started hstarted := by
    have hsound := hcoherent.started started hstarted
    refine hsound.mono (later_move process phase) ?_
    by_cases hsame : started.process = process
    · rw [hsame, move_self]
      exact hpast (hsame ▸ hsound.past)
    · rw [move_of_ne _ hsame]
      exact hsound.past

/-- A phase that holds nothing and awaits nothing. -/
theorem Coherent.end (hcoherent : Coherent sha256 deployment outputs)
    (hstarted : deployment.phase process ≠ .idle)
    (hlive : deployment.phase process ≠ .ended) :
    Coherent sha256 (deployment.move process .ended) outputs :=
  hcoherent.move (hcoherent.begun hstarted) hlive trivial nofun nofun fun _ => rfl

/-! ## The claim of a link -/

theorem claimAuthRetry_cases (deployment : Deployment) (key : JsString × JsString) :
    (read deployment.used deployment.now key = none ∧
        deployment.claimAuthRetry key = (true, { deployment with
          used := ExpiringStore.put deployment.used key (some ())
            (some (deployment.now + HANDOFF_TTL_MS)) })) ∨
      (read deployment.used deployment.now key ≠ none ∧
        deployment.claimAuthRetry key = (false, deployment)) := by
  rcases compareAndSet_cases deployment.used deployment.now key none (some ())
    (some (deployment.now + HANDOFF_TTL_MS)) with ⟨hfree, hserved⟩ | ⟨htaken, hserved⟩
  · exact .inl ⟨hfree, by rw [Deployment.claimAuthRetry, hserved]⟩
  · exact .inr ⟨htaken, by rw [Deployment.claimAuthRetry, hserved]⟩

/-- What is taken is not free before it expires. -/
theorem Taken.not_free {state : AuthRequestState} (htaken : Taken deployment state)
    (hfresh : deployment.now < state.expiresAt) :
    read deployment.used deployment.now (claimKey state) ≠ none := by
  obtain ⟨entry, instant, hentry, hinstant, hexpires⟩ := htaken
  have hlive : entry.live deployment.now = true := by
    rw [ExpiringStore.Entry.live, hinstant, Option.all_some, decide_eq_true_eq]
    exact hfresh.trans_le hexpires
  rw [ExpiringStore.read, hentry]
  simp only [hlive, if_true]
  exact Option.some_ne_none _

/-- A claim that won outlives the state it was made for. -/
theorem taken_put {used : ExpiringStore.Store (JsString × JsString) Unit}
    {state : AuthRequestState}
    (hwindow : state.expiresAt ≤ deployment.now + HANDOFF_TTL_MS) :
    Taken { deployment with
      used := ExpiringStore.put used (claimKey state) (some ())
        (some (deployment.now + HANDOFF_TTL_MS)) } state :=
  ⟨⟨(), some (deployment.now + HANDOFF_TTL_MS)⟩, _, put_self _ _ _ _, rfl, hwindow⟩

theorem later_claimAuthRetry (deployment : Deployment) (key : JsString × JsString) :
    Later deployment (deployment.claimAuthRetry key).2 := by
  rcases claimAuthRetry_cases deployment key with ⟨hfree, hserved⟩ | ⟨-, hserved⟩
  · rw [hserved]
    refine ⟨le_rfl, fun _ => id, fun _ => id, fun state htaken => ?_⟩
    by_cases hkey : claimKey state = key
    · subst hkey
      apply taken_put
      by_contra hlate
      have hnow : deployment.now < state.expiresAt := by omega
      exact htaken.not_free hnow hfree
    · obtain ⟨entry, instant, hentry, hrest⟩ := htaken
      exact ⟨entry, instant, (put_of_ne _ hkey _ _).trans hentry, hrest⟩
  · rw [hserved]
    exact ⟨le_rfl, fun _ => id, fun _ => id, fun _ => id⟩

/-- A claim changes the claims, and nothing else. -/
theorem claimAuthRetry_same (deployment : Deployment) (key : JsString × JsString) :
    (deployment.claimAuthRetry key).2 = { deployment with
      used := (deployment.claimAuthRetry key).2.used } := by
  rcases claimAuthRetry_cases deployment key with ⟨-, hserved⟩ | ⟨-, hserved⟩
  · rw [hserved]
  · rw [hserved]

theorem Coherent.claimAuthRetry (hcoherent : Coherent sha256 deployment outputs)
    (key : JsString × JsString) :
    Coherent sha256 (deployment.claimAuthRetry key).2 outputs := by
  have hlater := later_claimAuthRetry deployment key
  rw [claimAuthRetry_same] at hlater ⊢
  exact hcoherent.mono hlater rfl rfl (fun _ => id) hcoherent.fresh

/-- A link that can be claimed was neither used nor claimed. -/
theorem Coherent.unclaimed (hcoherent : Coherent sha256 deployment outputs)
    {request : Request} {state : AuthRequestState}
    (haccepted : Accepted deployment request state)
    (hfresh : deployment.now < state.expiresAt)
    (hfree : read deployment.used deployment.now (claimKey state) = none) :
    (∀ started ∈ outputs, started.state.nonce ≠ state.nonce) ∧
      ∀ other, grip (deployment.phase other) ≠ some state.nonce := by
  constructor
  · intro started hstarted hnonce
    have hsound := hcoherent.started started hstarted
    have hstate := hcoherent.same_state hsound.accepted haccepted hnonce
    exact (hstate ▸ hsound.taken).not_free hfresh hfree
  · intro other hheld
    have hphase := hcoherent.phases other
    cases hother : deployment.phase other with
    | rechecking asking found checked pending =>
        rw [hother] at hheld hphase
        obtain ⟨hclaimed, -, htaken, -⟩ := hphase
        have hstate := hcoherent.same_state hclaimed haccepted (Option.some.inj hheld)
        exact (hstate ▸ htaken).not_free hfresh hfree
    | idle => rw [hother] at hheld; cases hheld
    | verified asking found => rw [hother] at hheld; cases hheld
    | claiming asking found => rw [hother] at hheld; cases hheld
    | running asking previous invocations => rw [hother] at hheld; cases hheld
    | ended => rw [hother] at hheld; cases hheld

theorem Coherent.claimStep (hcoherent : Coherent sha256 deployment outputs)
    {emitted : List Started}
    (hstep : step sha256 deployment (.claim process) = some (later, emitted)) :
    Coherent sha256 later (outputs ++ emitted) := by
  simp only [step] at hstep
  split at hstep
  case h_2 => cases hstep
  rename_i request state hphase
  have hsound := hcoherent.phases process
  have hfresh := hcoherent.fresh process state (by rw [hphase]; rfl)
  rw [hphase] at hsound
  obtain ⟨haccepted, hnames⟩ := hsound
  have hserved := hcoherent.claimAuthRetry (claimKey state)
  have hgrows := later_claimAuthRetry deployment (claimKey state)
  have hsame : (deployment.claimAuthRetry (claimKey state)).2.phase = deployment.phase := by
    rw [claimAuthRetry_same]
  have hnow : (deployment.claimAuthRetry (claimKey state)).2.now = deployment.now := by
    rw [claimAuthRetry_same]
  have hend : Coherent sha256
      ((deployment.claimAuthRetry (claimKey state)).2.move process .ended) outputs :=
    hserved.end (by rw [hsame, hphase]; nofun) (by rw [hsame, hphase]; nofun)
  rcases claimAuthRetry_cases deployment (claimKey state) with ⟨hfree, hclaim⟩ | ⟨-, hclaim⟩
  · obtain ⟨hunstarted, hungripped⟩ := hcoherent.unclaimed haccepted hfresh hfree
    have hwindow := hcoherent.window haccepted
    rw [hclaim] at hstep hserved hgrows hsame hnow hend
    dsimp only at hstep
    split at hstep
    · cases hstep
      rw [List.append_nil]
      exact hend
    · cases hstep
      rw [List.append_nil]
      refine hserved.move ?_ ?_ ⟨hgrows.accepted haccepted, hnames, taken_put ?_,
        hunstarted, rfl, fun _ hfound => absurd hfound List.not_mem_nil⟩ ?_ ?_ ?_
      · exact hserved.begun (by rw [hsame, hphase]; nofun)
      · rw [hsame, hphase]
        nofun
      · simp only [HANDOFF_TTL_MS]
        simp only [REQUEST_STATE_TTL_MS] at hwindow
        omega
      · rintro nonce hheld other -
        rw [hsame, ← Option.some.inj hheld]
        exact hungripped other
      · rintro _ ⟨⟩
        exact hfresh
      · rw [hsame, hphase]
        nofun
  · rw [hclaim] at hstep hend
    cases hstep
    rw [List.append_nil]
    exact hend

end

end Connecta.Auth
