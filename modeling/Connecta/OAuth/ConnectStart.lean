import Connecta.Foundation.ExpiringStore
import Connecta.Foundation.Transition
import Connecta.Runtime.Utf16

/-!
# Forced connect links

A link is claimed before OAuth starts, and a forced flow resets the grant once,
whichever of its links arrives first.  Both claims are compare-and-sets on
records that expire: one on the link's own record and one on the flow's reset
record, which a claim that loses its link rolls back.  Every storage operation
takes effect on a step of its own, and every synchronous block between two of
them is another; a visitor that stops takes no further step.
-/

namespace Connecta.ConnectStart

open Connecta.Runtime
open Connecta.Transition
open Connecta.ExpiringStore

/-- The part of a link a claim reads.  Instants are in milliseconds. -/
structure Handoff where
  expiresAt : ℕ
  nonce : JsString
  force : Bool
  /-- The first link of a forced flow; absent on that link. -/
  flow : Option JsString
  deriving DecidableEq

inductive Key where
  | used (nonce : JsString)
  | reset (flow : JsString)
  deriving DecidableEq

inductive Mark where
  | used
  | started
  | failed
  deriving DecidableEq

/-- `FLOW_RESET_EXPIRY`, in seconds. -/
def flowResetExpiry : ℕ := 30 * 60

inductive Outcome where
  | started
  | failed
  deriving DecidableEq

def Outcome.mark : Outcome → Mark
  | .started => .started
  | .failed => .failed

inductive Answer where
  | reset
  | continue
  | pending
  | refused
  deriving DecidableEq

/-- Where a visitor is.  An operation is first submitted, then takes effect; what
it answered waits for the block that reads it. -/
inductive Phase where
  | absent
  | reading
  | read (prior : Option Mark)
  | claimingReset (prior : Option Mark)
  | claimedReset (prior : Option Mark) (won : Bool)
  | claimingNonce (prior : Option Mark) (ttlSeconds : ℕ)
  | claimedNonce (prior : Option Mark) (won : Bool)
  | rollingBack (prior : Option Mark)
  | rolledBack
  | answered (answer : Answer)
  | settling (outcome : Outcome)
  | settled (outcome : Outcome)
  | marking (outcome : Outcome) (ttlSeconds : ℕ)
  | marked (written : Bool)
  | finished (result : Bool)
  deriving DecidableEq

/-- `claiming`: the visitor claimed the reset of its flow. -/
structure Visitor where
  handoff : Handoff
  claiming : Bool := false
  phase : Phase := .absent
  deriving DecidableEq

structure State where
  store : Store Key Mark
  visitors : ℕ → Visitor
  now : ℕ

/-- What the outside sees of a step: a write to the flow's reset record, a
visitor's claim of its link, and the answer of a claim. -/
inductive Report where
  | wrote (visitor : ℕ) (before after : Option Mark)
  | claimed (visitor : ℕ)
  | answered (visitor : ℕ) (answer : Answer)
  deriving DecidableEq

namespace Handoff

/-- The record of the reset its flow shares. -/
def resetKey (handoff : Handoff) : Key :=
  .reset (handoff.flow.getD handoff.nonce)

/-- `Math.max(1, Math.ceil((expiresAt - now) / 1000))` -/
def ttlSeconds (handoff : Handoff) (now : ℕ) : ℕ :=
  max 1 ((handoff.expiresAt - now + 999) / 1000)

end Handoff

namespace State

def setPhase (state : State) (visitor : ℕ) (phase : Phase) : State :=
  { state with
    visitors := Function.update state.visitors visitor
      { state.visitors visitor with phase := phase } }

def setClaiming (state : State) (visitor : ℕ) (phase : Phase) : State :=
  { state with
    visitors := Function.update state.visitors visitor
      { state.visitors visitor with claiming := true, phase := phase } }

/-- `compareAndSet(key, expected, next, { ttlSeconds })` -/
def compareAndSet (state : State) (key : Key) (expected next : Option Mark)
    (ttlSeconds : ℕ) : Bool × State :=
  let (won, store) := ExpiringStore.compareAndSet state.store state.now key
    expected next (some (state.now + ttlSeconds * 1000))
  (won, { state with store := store })

def answer (state : State) (visitor : ℕ) (answer : Answer) :
    State × List Report :=
  (state.setPhase visitor (.answered answer), [.answered visitor answer])

/-- The start of `claimOAuthConnectStart`. -/
def arrive (state : State) (visitor : ℕ) (handoff : Handoff) :
    State × List Report :=
  let arrived : State :=
    { state with
      visitors := Function.update state.visitors visitor { handoff := handoff } }
  if handoff.expiresAt ≤ state.now then arrived.answer visitor .refused
  else if handoff.force then (arrived.setPhase visitor .reading, [])
  else
    (arrived.setPhase visitor
      (.claimingNonce (some .started) (handoff.ttlSeconds state.now)), [])

/-- The submitted operation takes effect. -/
def land (state : State) (visitor : ℕ) (current : Visitor) :
    Option (State × List Report) :=
  let handoff := current.handoff
  match current.phase with
  | .reading =>
      let prior := ExpiringStore.read state.store state.now handoff.resetKey
      some (state.setPhase visitor (.read prior), [])
  | .claimingReset prior =>
      let (won, later) := state.compareAndSet handoff.resetKey prior
        (some .used) flowResetExpiry
      if won then
        some (later.setClaiming visitor (.claimedReset prior true),
          [.wrote visitor prior (some .used)])
      else some (later.setPhase visitor (.claimedReset prior false), [])
  | .claimingNonce prior ttlSeconds =>
      let (won, later) := state.compareAndSet (.used handoff.nonce) none
        (some .used) ttlSeconds
      some (later.setPhase visitor (.claimedNonce prior won),
        if won then [.claimed visitor] else [])
  | .rollingBack prior =>
      let (won, later) := state.compareAndSet handoff.resetKey (some .used)
        prior flowResetExpiry
      some (later.setPhase visitor .rolledBack,
        if won then [.wrote visitor (some .used) prior] else [])
  | .settling outcome =>
      let (won, later) := state.compareAndSet handoff.resetKey (some .used)
        (some outcome.mark) flowResetExpiry
      some (later.setPhase visitor (.settled outcome),
        if won then [.wrote visitor (some .used) (some outcome.mark)] else [])
  | .marking outcome ttlSeconds =>
      let (won, later) := state.compareAndSet (.used handoff.nonce) (some .used)
        (some outcome.mark) ttlSeconds
      some (later.setPhase visitor (.marked won), [])
  | _ => none

/-- The end of `finishOAuthConnectStart`, after the flow's record. -/
def mark (state : State) (visitor : ℕ) (handoff : Handoff) (outcome : Outcome) :
    State :=
  if handoff.expiresAt ≤ state.now then state.setPhase visitor (.finished false)
  else state.setPhase visitor (.marking outcome (handoff.ttlSeconds state.now))

/-- The block that reads what an operation answered. -/
def proceed (state : State) (visitor : ℕ) (current : Visitor) :
    Option (State × List Report) :=
  let handoff := current.handoff
  match current.phase with
  | .read prior =>
      if prior = some .used then some (state.answer visitor .pending)
      else if prior = some .started then
        some (state.setPhase visitor
          (.claimingNonce prior (handoff.ttlSeconds state.now)), [])
      else some (state.setPhase visitor (.claimingReset prior), [])
  | .claimedReset prior won =>
      if won then
        some (state.setPhase visitor
          (.claimingNonce prior (handoff.ttlSeconds state.now)), [])
      else some (state.answer visitor .pending)
  | .claimedNonce prior won =>
      if won then
        some (state.answer visitor (if current.claiming then .reset else .continue))
      else if current.claiming then
        some (state.setPhase visitor (.rollingBack prior), [])
      else some (state.answer visitor .refused)
  | .rolledBack => some (state.answer visitor .refused)
  | .settled outcome => some (state.mark visitor handoff outcome, [])
  | .marked written => some (state.setPhase visitor (.finished written), [])
  | _ => none

/-- The start of `finishOAuthConnectStart`, once for each claim that may. -/
def finish (state : State) (visitor : ℕ) (current : Visitor)
    (outcome : Outcome) : Option (State × List Report) :=
  if current.phase = .answered .reset ∨ current.phase = .answered .continue then
    if current.handoff.force then
      some (state.setPhase visitor (.settling outcome), [])
    else some (state.mark visitor current.handoff outcome, [])
  else none

end State

inductive Event where
  | tick (elapsed : ℕ)
  | arrive (visitor : ℕ) (handoff : Handoff)
  | land (visitor : ℕ)
  | proceed (visitor : ℕ)
  | finish (visitor : ℕ) (outcome : Outcome)

/-- A link of the flow, with the expiry it was issued with. -/
def Handoff.ofFlow (handoff : Handoff) (flow : JsString)
    (expiry : JsString → ℕ) : Bool :=
  handoff.force && handoff.flow.getD handoff.nonce = flow &&
    handoff.expiresAt = expiry handoff.nonce

/-- The visitors of one flow.  `expiry` is the instant each of its links was
issued to expire at; all of them lie within twenty-five minutes of `opened`,
before which nothing claims the reset. -/
def State.step (flow : JsString) (expiry : JsString → ℕ) (opened : ℕ)
    (state : State) : Event → Option (State × List Report)
  | .tick elapsed => some ({ state with now := state.now + elapsed }, [])
  | .arrive visitor handoff =>
      if (state.visitors visitor).phase = .absent ∧
          handoff.ofFlow flow expiry = true ∧
          handoff.expiresAt ≤ opened + 25 * 60 * 1000 then
        some (state.arrive visitor handoff)
      else none
  | .land visitor =>
      match (state.visitors visitor).phase with
      | .claimingReset _ =>
          if opened ≤ state.now then state.land visitor (state.visitors visitor)
          else none
      | _ => state.land visitor (state.visitors visitor)
  | .proceed visitor => state.proceed visitor (state.visitors visitor)
  | .finish visitor outcome =>
      state.finish visitor (state.visitors visitor) outcome

def visitors (flow : JsString) (expiry : JsString → ℕ) (opened : ℕ) :
    Machine State Event Report where
  init state := (∀ key, state.store key = none) ∧
    ∀ visitor, (state.visitors visitor).phase = .absent ∧
      (state.visitors visitor).claiming = false
  step := State.step flow expiry opened

/-- A claim's compare-and-set is about to land on a record that was written and
has since expired.  A record that expired as failed may be claimed anyway. -/
def State.overdue (state : State) : Event → Bool
  | .land visitor =>
      let current := state.visitors visitor
      let lapsed := lapsed state.store state.now
      match current.phase with
      | .claimingReset _ =>
          (lapsed current.handoff.resetKey).any fun mark => mark ≠ .failed
      | .claimingNonce _ _ => (lapsed (.used current.handoff.nonce)).isSome
      | .rollingBack _ => (lapsed current.handoff.resetKey).isSome
      | _ => false
  | _ => false

/-! ## What a flow promises -/

/-- The visitor claimed the reset and has neither finished nor rolled back. -/
def Holds (state : State) (visitor : ℕ) : Prop :=
  (state.visitors visitor).claiming = true ∧
    match (state.visitors visitor).phase with
    | .claimedReset _ _ | .claimingNonce _ _ | .claimedNonce _ _
    | .rollingBack _ | .answered .reset | .settling _ => True
    | _ => False

/-- The writes to the reset record, in order. -/
def resetWrites : List Report → List (ℕ × Option Mark × Option Mark)
  | [] => []
  | .wrote visitor before after :: rest =>
      (visitor, before, after) :: resetWrites rest
  | _ :: rest => resetWrites rest

/-- The claim of a forced flow, in a state and what led to it. -/
structure ResetsOnce (state : State) (reports : List Report) : Prop where
  single : ∀ first second, Holds state first → Holds state second →
    first = second
  started : ∀ earlier later visitor other before, reports = earlier ++ later →
    Report.wrote visitor before (some .started) ∈ earlier →
      Report.answered other .reset ∉ later
  links : ∀ first second, Report.claimed first ∈ reports →
    Report.claimed second ∈ reports →
      (state.visitors first).handoff.nonce = (state.visitors second).handoff.nonce →
        first = second
  /-- An answer of `pending` or `refused` leaves no write of the visitor, or a
  claim and the rollback right after it. -/
  undone : ∀ visitor answer, Report.answered visitor answer ∈ reports →
    answer = .pending ∨ answer = .refused →
      (∀ write ∈ resetWrites reports, write.1 ≠ visitor) ∨
        ∃ earlier later prior, resetWrites reports = earlier ++
          [(visitor, prior, some .used), (visitor, some .used, prior)] ++ later ∧
          (∀ write ∈ earlier, write.1 ≠ visitor) ∧
          ∀ write ∈ later, write.1 ≠ visitor
  /-- A write that settles the record follows the claim of the same visitor. -/
  holder : ∀ earlier later visitor before after,
    resetWrites reports = earlier ++ (visitor, before, some after) :: later →
      after ≠ .used → before = some .used ∧
        ∃ others prior, earlier = others ++ [(visitor, prior, some .used)]

end Connecta.ConnectStart
