import Connecta.Foundation.Transition
import Connecta.OAuth.GrantStore

/-!
# Who may send a refresh token

One fingerprint has one spent record, which every redemption of its token goes
through by compare-and-set.  Leases, liveness keys and the grant are read as
anything here: whatever they say, the record alone keeps two sends apart.  A
write of the record is the step at which it takes effect; a redemption that
stopped, or lost the answer, takes no further step.
-/

namespace Connecta.RefreshSends

open Connecta.Runtime
open Connecta.Transition
open Connecta.GrantStore

/-! ## Records -/

inductive SpentState where
  | outstanding
  | ambiguous
  | resolved (resolvedAt : ℕ)
  deriving DecidableEq

structure StoredRefreshSpent where
  epoch : Epoch
  holder : ℕ
  state : SpentState
  deriving DecidableEq

/-- `StoredRefreshLease`, as far as a claim's spent record depends on it. -/
structure StoredRefreshLease where
  holder : ℕ
  claimed : Bool
  completed : Bool
  tokenDigest : Option JsString
  predecessor : Option ℕ

/-- The digest of a token set, and the text a spent record is stored as. -/
structure Platform where
  refreshTokensDigest : OAuthTokens → JsString
  spentText : StoredRefreshSpent → JsString

/-- The lease's tokens are the ones stored. -/
def committed (platform : Platform) (grant : Grant)
    (stored : StoredRefreshLease) : Bool :=
  (stored.completed || stored.claimed && stored.predecessor.isSome) &&
    grant.body.tokens.any fun tokens =>
      stored.tokenDigest = some (platform.refreshTokensDigest tokens.value)

/-- Whether a claim may go on to replace the spent record: it is resolved, by the
redemption this lease completed or before a later consent. -/
def mayReplace (platform : Platform) (digest : JsString) (epoch : Epoch)
    (grant : Grant) (stored : Option StoredRefreshLease)
    (spent : StoredRefreshSpent) : Bool :=
  match spent.state with
  | .outstanding | .ambiguous => false
  | .resolved _ =>
      (stored.any fun stored => committed platform grant stored &&
        spent.epoch = epoch && some spent.holder =
          if stored.completed then some stored.holder else stored.predecessor) ||
      spent.epoch ≠ epoch && grant.body.refreshConsent.any fun consent =>
        consent.digest = digest && consent.resolution = platform.spentText spent

/-- `lease.spentRaw`, which a dispatch stores. -/
def spentRaw (epoch : Epoch) (holder : ℕ) : StoredRefreshSpent where
  epoch := epoch
  holder := holder
  state := .outstanding

/-! ## Redemptions -/

/-- Where the redemption under a holder is. -/
inductive Phase where
  | absent
  | claimed (spentExpected : Option StoredRefreshSpent)
  | dispatched (epoch : Epoch)
  | sent (epoch : Epoch)
  | ended

structure State where
  spent : Option StoredRefreshSpent
  redemptions : ℕ → Phase

inductive Event where
  /-- The poll whose claim is won, with the grant and the lease it read. -/
  | poll (holder : ℕ) (epoch : Epoch) (grant : Grant) (stored : Option StoredRefreshLease)
  | dispatch (holder : ℕ) (epoch : Epoch)
  | send (holder : ℕ)
  | resolve (holder now : ℕ)
  /-- A redemption gives its own send up, or another finds its liveness key gone. -/
  | lapse

inductive Report where
  | dispatched (holder : ℕ)
  | sent (holder : ℕ)
  | resolved (holder : ℕ)
  | lapsed (holder : ℕ)

namespace State

def enter (state : State) (holder : ℕ) (phase : Phase) : State :=
  { state with redemptions := Function.update state.redemptions holder phase }

/-- A compare-and-set of the spent record takes effect. -/
def swap (state : State) (holder : ℕ) (expected : Option StoredRefreshSpent)
    (next : StoredRefreshSpent) (won : Phase) (report : Report) : State × List Report :=
  if state.spent = expected then
    ({ state with spent := some next }.enter holder won, [report])
  else (state.enter holder .ended, [])

/-- `claimRefresh`, `dispatchRefresh` and `resolveRefreshSpent`, as far as they go
through the spent record. -/
def step (platform : Platform) (digest : JsString) (state : State) :
    Event → Option (State × List Report)
  | .poll holder epoch grant stored =>
      match state.redemptions holder with
      | .absent =>
          if state.spent.all (mayReplace platform digest epoch grant stored) then
            some (state.enter holder (.claimed state.spent), [])
          else none
      | _ => none
  | .dispatch holder epoch =>
      match state.redemptions holder with
      | .claimed expected => some (state.swap holder expected
          (spentRaw epoch holder) (.dispatched epoch) (.dispatched holder))
      | _ => none
  | .send holder =>
      match state.redemptions holder with
      | .dispatched epoch => some (state.enter holder (.sent epoch), [.sent holder])
      | _ => none
  | .resolve holder now =>
      match state.redemptions holder with
      | .sent epoch => some (state.swap holder (some (spentRaw epoch holder))
          { spentRaw epoch holder with state := .resolved now } .ended (.resolved holder))
      | _ => none
  | .lapse =>
      match state.spent with
      | some spent =>
          if spent.state = .outstanding then
            some ({ state with spent := some { spent with state := .ambiguous } },
              [.lapsed spent.holder])
          else none
      | none => none

end State

/-- Every redemption of one fingerprint, from an empty store. -/
def redemptions (platform : Platform) (digest : JsString) :
    Machine State Event Report where
  init state := state.spent = none ∧ ∀ holder, state.redemptions holder = .absent
  step := State.step platform digest

/-! ## What a fingerprint may go through -/

/-- At rest, or between a dispatch and its resolution: under whom, whether the
token was sent, and whether the outcome is unknown. -/
inductive Status where
  | idle
  | opened (holder : ℕ) (sent ambiguous : Bool)

/-- A send follows its own dispatch, a dispatch follows the resolution of the last
send, and after a lapse nothing follows but the send that was dispatched. -/
def Status.next : Status → Report → Option Status
  | .idle, .dispatched holder => some (.opened holder false false)
  | .opened holder false ambiguous, .sent sender =>
      if sender = holder then some (.opened holder true ambiguous) else none
  | .opened holder true false, .resolved sender =>
      if sender = holder then some .idle else none
  | .opened holder sent false, .lapsed lapsed =>
      if lapsed = holder then some (.opened holder sent true) else none
  | _, _ => none

/-- What the spent record says of a status. -/
def Shows : Status → Option StoredRefreshSpent → Prop
  | .idle, spent => ∀ record, spent = some record →
      ∃ resolvedAt, record.state = .resolved resolvedAt
  | .opened holder _ ambiguous, spent => ∃ record, spent = some record ∧
      record.holder = holder ∧
        record.state = if ambiguous then .ambiguous else .outstanding

/-! ## The invariant -/

/-- A holder's dispatch is on the record and its token not sent. -/
def Unsent : Status → ℕ → Prop
  | .idle, _ => False
  | .opened opener sent _, holder => holder = opener ∧ sent = false

/-- What each phase knows of its own send, and of the record it expects. -/
def Placed (unsent : Prop) : Phase → Prop
  | .claimed expected => Shows .idle expected
  | .dispatched _ => unsent
  | .sent _ => ¬ unsent
  | .absent | .ended => True

structure Follows (state : State) (status : Status) : Prop where
  shows : Shows status state.spent
  placed : ∀ holder, Placed (Unsent status holder) (state.redemptions holder)

/-- What a step leads to, and that its reports are allowed. -/
def Allowed (status : Status) (moved : State × List Report) : Prop :=
  ∃ later, moved.2.foldlM Status.next status = some later ∧ Follows moved.1 later

variable {platform : Platform} {digest : JsString} {state : State}
variable {status later : Status} {holder : ℕ} {phase : Phase}

theorem Follows.knows (hfollows : Follows state status)
    (hphase : state.redemptions holder = phase) :
    Placed (Unsent status holder) phase :=
  hphase ▸ hfollows.placed holder

/-- A step of one redemption, where every other's send is where it was. -/
theorem Follows.enter {spent : Option StoredRefreshSpent} (hfollows : Follows state status)
    (hshows : Shows later spent) (hplaced : Placed (Unsent later holder) phase)
    (hkept : ∀ other, other ≠ holder → Unsent later other = Unsent status other) :
    Follows ({ state with spent := spent }.enter holder phase) later where
  shows := hshows
  placed := by
    intro other
    change Placed _ (Function.update state.redemptions holder phase other)
    by_cases hother : other = holder
    · rw [hother, Function.update_self]
      exact hplaced
    · rw [Function.update_of_ne hother, hkept other hother]
      exact hfollows.placed other

/-- A step that leaves the record and the status. -/
theorem Follows.quiet (hfollows : Follows state status)
    (hplaced : Placed (Unsent status holder) phase) :
    Allowed status (state.enter holder phase, []) :=
  ⟨status, rfl, hfollows.enter hfollows.shows hplaced fun _ _ => rfl⟩

/-- What a poll lets its caller replace is resolved. -/
theorem mayReplace_resolved {epoch : Epoch} {grant : Grant}
    {stored : Option StoredRefreshLease} {spent : Option StoredRefreshSpent}
    (hmay : spent.all (mayReplace platform digest epoch grant stored) = true) :
    Shows .idle spent := by
  intro record hrecord
  rw [hrecord, Option.all_some, mayReplace] at hmay
  split at hmay
  case h_3 resolvedAt hstate => exact ⟨resolvedAt, hstate⟩
  all_goals cases hmay

/-- A record that a claim found resolved is still so where nothing is open. -/
theorem Shows.idle {spent : Option StoredRefreshSpent} (hshows : Shows status spent)
    (hresolved : Shows .idle spent) : status = .idle := by
  cases status with
  | idle => rfl
  | opened holder sent ambiguous =>
      obtain ⟨record, hspent, _, hstate⟩ := hshows
      obtain ⟨resolvedAt, hrecord⟩ := hresolved record hspent
      rw [hrecord] at hstate
      cases ambiguous <;> cases hstate

/-- An outstanding record is of the one redemption that is open. -/
theorem Shows.opened {record : StoredRefreshSpent} (hshows : Shows status (some record))
    (hstate : record.state = .outstanding) :
    ∃ sent, status = .opened record.holder sent false := by
  cases status with
  | idle =>
      obtain ⟨resolvedAt, hresolved⟩ := hshows record rfl
      rw [hstate] at hresolved
      cases hresolved
  | opened holder sent ambiguous =>
      obtain ⟨shown, hspent, rfl, hshown⟩ := hshows
      obtain rfl := Option.some.inj hspent
      rw [hstate] at hshown
      cases ambiguous with
      | false => exact ⟨sent, rfl⟩
      | true => cases hshown

/-- The dispatch takes the record from rest. -/
theorem Follows.dispatched {expected : Option StoredRefreshSpent} {epoch : Epoch}
    (hfollows : Follows state status) (hexpected : Shows .idle expected) :
    Allowed status (state.swap holder expected (spentRaw epoch holder)
      (.dispatched epoch) (.dispatched holder)) := by
  rw [State.swap]
  split
  case isTrue hspent =>
    obtain rfl : status = .idle := hfollows.shows.idle (hspent ▸ hexpected)
    refine ⟨.opened holder false false, rfl, ?_⟩
    apply hfollows.enter
    · exact ⟨_, rfl, rfl, rfl⟩
    · exact ⟨rfl, rfl⟩
    · intro other hother
      simp [Unsent, hother]
  case isFalse => exact hfollows.quiet trivial

/-- The resolution of a send puts the record at rest. -/
theorem Follows.resolved {epoch : Epoch} {resolvedAt : ℕ}
    (hfollows : Follows state status) (hsent : ¬ Unsent status holder) :
    Allowed status (state.swap holder (some (spentRaw epoch holder))
      { spentRaw epoch holder with state := .resolved resolvedAt }
      .ended (.resolved holder)) := by
  rw [State.swap]
  split
  case isTrue hspent =>
    obtain ⟨sent, rfl⟩ := (hspent ▸ hfollows.shows).opened rfl
    obtain rfl : sent = true := by simpa [Unsent, spentRaw] using hsent
    refine ⟨.idle, by simp [Status.next, spentRaw], ?_⟩
    apply hfollows.enter
    · intro record hrecord
      obtain rfl := Option.some.inj hrecord
      exact ⟨resolvedAt, rfl⟩
    · exact trivial
    · intro other hother
      simp [Unsent]
  case isFalse => exact hfollows.quiet trivial

/-- The send follows its dispatch. -/
theorem Follows.send {epoch : Epoch} (hfollows : Follows state status)
    (hunsent : Unsent status holder) :
    Allowed status (state.enter holder (.sent epoch), [.sent holder]) := by
  cases status with
  | idle => cases hunsent
  | opened opener sent ambiguous =>
      obtain ⟨rfl, rfl⟩ := hunsent
      have hshows : Shows (.opened holder true ambiguous) state.spent := hfollows.shows
      refine ⟨.opened holder true ambiguous, by simp [Status.next], ?_⟩
      apply hfollows.enter hshows
      · simp [Placed, Unsent]
      · intro other hother
        simp [Unsent, hother]

/-- An outcome that is given up leaves every phase as it is. -/
theorem Follows.lapse {spent : StoredRefreshSpent} (hfollows : Follows state status)
    (hspent : state.spent = some spent) (hstate : spent.state = .outstanding) :
    Allowed status ({ state with spent := some { spent with state := .ambiguous } },
      [.lapsed spent.holder]) := by
  obtain ⟨sent, rfl⟩ := (hspent ▸ hfollows.shows).opened hstate
  refine ⟨.opened spent.holder sent true, ?_, ⟨_, rfl, rfl, rfl⟩, hfollows.placed⟩
  cases sent <;> simp [Status.next]

theorem follows_step {event : Event} {moved : State × List Report}
    (hfollows : Follows state status)
    (hmove : State.step platform digest state event = some moved) :
    Allowed status moved := by
  revert hmove
  fun_cases State.step platform digest state event with
  | case1 holder epoch grant stored hphase hmay =>
      rintro ⟨⟩
      exact hfollows.quiet (mayReplace_resolved hmay)
  | case4 holder epoch expected hphase =>
      rintro ⟨⟩
      exact hfollows.dispatched (hfollows.knows hphase)
  | case6 holder epoch hphase =>
      rintro ⟨⟩
      exact hfollows.send (hfollows.knows hphase)
  | case8 holder now epoch hphase =>
      rintro ⟨⟩
      exact hfollows.resolved (hfollows.knows hphase)
  | case10 spent hspent hstate =>
      rintro ⟨⟩
      exact hfollows.lapse hspent hstate
  | _ => rintro ⟨⟩

/-! ## Every run -/

/-- In every run, whatever the leases and grants were read as, a refresh token is
sent only by the redemption whose dispatch took its record, once for each
dispatch; the next dispatch comes after that send was resolved; and where the
outcome was given up, no dispatch follows. -/
theorem refresh_sends_in_turn {reports : List Report}
    (hrun : (redemptions platform digest).Run state reports) :
    ∃ status, reports.foldlM Status.next .idle = some status ∧
      Shows status state.spent := by
  have hallowed : Allowed .idle (state, reports) := by
    apply hrun.invariant (motive := fun state reports => Allowed .idle (state, reports))
    · intro start hstart
      refine ⟨.idle, rfl, ?_, ?_⟩
      · intro record hrecord
        rw [hstart.1] at hrecord
        cases hrecord
      · intro holder
        rw [hstart.2 holder]
        exact trivial
    · intro before emitted event later added hbefore hmove
      obtain ⟨status, hstatus, hfollows⟩ := hbefore
      obtain ⟨after, hafter, hkept⟩ := follows_step hfollows hmove
      refine ⟨after, ?_, hkept⟩
      rw [List.foldlM_append, hstatus]
      exact hafter
  obtain ⟨status, hstatus, hfollows⟩ := hallowed
  exact ⟨status, hstatus, hfollows.shows⟩

/-- Sent, resolved, and sent again once a later consent named the resolution. -/
theorem refresh_sends_in_turn_consented : ∃ status, ∃ state : State,
    [Report.dispatched 0, .sent 0, .resolved 0, .dispatched 1, .sent 1].foldlM
      Status.next .idle = some status ∧ Shows status state.spent := by
  let platform : Platform := ⟨fun _ => [], fun _ => []⟩
  let grant : Grant := { epoch := .active 1, body := { refreshConsent := some ⟨[], []⟩ } }
  let events : List Event :=
    [.poll 0 .initial grant none, .dispatch 0 .initial, .send 0, .resolve 0 7,
      .poll 1 (.active 1) grant none, .dispatch 1 (.active 1), .send 1]
  have hstart : (redemptions platform []).init ⟨none, fun _ => .absent⟩ :=
    ⟨rfl, fun _ => rfl⟩
  have hrun := (Machine.Run.start hstart).execute events rfl
  obtain ⟨status, hsends⟩ := refresh_sends_in_turn hrun
  exact ⟨status, _, hsends⟩

end Connecta.RefreshSends
