import Connecta.Writes.ProviderCalls

/-!
# No request leaves after its call was read

One step keeps what was recorded: a dispatch happens once, an answer comes once,
and the facts of both stay.  A revoked lease revokes the leases beneath it, so a
call that was closed, and every boundary entered beneath it before or after,
dispatches no resource request any more.
-/

namespace Connecta.ProviderCalls

open Connecta.Foundation (Propagation)
open Connecta.Runtime
open Connecta.Transition
open Connecta.Writes (Classification LogicalCall ProviderRequest readRequest)

variable {state later : State} {event : Event} {emitted outputs : List Report}

/-! ## What a step does -/

/-- A dispatch that happens. -/
structure Dispatches (state later : State) (context request : ℕ) (view : View)
    (opened : Opened) : Prop where
  found : state.requests[request]? = some opened
  through : state.views[context]? = some view
  sent : state.sender context view opened = true
  asserted : state.assertProviderCallOpen view opened.request.provider
    opened.request.auxiliary = none
  fresh : opened.request.dispatched = false
  moved : ∃ (final : ProviderRequest) (overridden : Bool),
    later = { state with
        requests := state.requests.set request { opened with request := final }
        logicals := view.logical.elim state.logicals fun logical =>
          state.logicals.modify logical (State.recordDispatch request final overridden) } ∧
      final.dispatched = true ∧ final.status = opened.request.status ∧
      final.auxiliary = opened.request.auxiliary ∧
      final.provider = opened.request.provider ∧ final.key = opened.request.key

/-- What `revoke` leaves of the leases. -/
def Revokes (leases : List CallLease) (lease : Option ℕ) (later : List CallLease) : Prop :=
  lease.elim (later = leases) fun lease =>
    State.revoking.spread (leases.length + 1) leases lease = some later

/-- What an enabled event does, with the guards it met. -/
inductive Stepped (state : State) : State → List Report → Prop where
  | operation (leased : Bool) (logical : Option (ℕ × ℕ))
      (classification : Option Classification) :
      Stepped state (state.operation leased logical classification) []
  | entered (context : ℕ) (view : View) (classification served : Option Classification)
      (hview : state.views[context]? = some view) :
      Stepped state (state.providerCallContext context view classification served) []
  | opened (context : ℕ) (view : View) (auxiliary : Bool) (provider : JsString)
      (sent : State.Sent) (hview : state.views[context]? = some view) :
      Stepped state (state.providerRequest context view auxiliary provider sent) []
  | dispatched {later : State} (context request : ℕ) (view : View) (opened : Opened)
      (hdispatches : Dispatches state later context request view opened) :
      Stepped state later [.dispatched request]
  | answered (request status : ℕ) (opened : Opened)
      (hfound : state.requests[request]? = some opened)
      (hunanswered : opened.request.status = none) :
      Stepped state { state with
        requests := state.requests.set request
          { opened with request := { opened.request with status := some status } } }
        [.answered request]
  | refused (refusal : State.Refusal) : Stepped state state [.refused refusal]
  | closed (context : ℕ) (view : View) (calls : List ProviderCall) (leases : List CallLease)
      (hview : state.views[context]? = some view)
      (hcalls : state.closeCalls view.providerLedger = some calls)
      (hleases : Revokes state.leases view.lease leases) :
      Stepped state { state with calls := calls, leases := leases } []
  | aborted (context : ℕ) (view : View) (leases : List CallLease)
      (hview : state.views[context]? = some view)
      (hleases : Revokes state.leases view.lease leases) :
      Stepped state { state with leases := leases } []
  | ended :
      Stepped state { state with
        requestOpen := false
        leases := state.leases.map fun lease => { lease with closed := true } } []

/-- Revoking changes leases only. -/
theorem revoke_eq {lease : Option ℕ} (hrevoke : state.revoke lease = some later) :
    ∃ leases, later = { state with leases := leases } ∧
      Revokes state.leases lease leases := by
  cases lease with
  | none =>
      obtain rfl := Option.some.inj hrevoke
      exact ⟨state.leases, rfl, rfl⟩
  | some lease =>
      simp only [State.revoke, Option.bind_eq_bind, Option.bind_eq_some_iff, Option.pure_def,
        Option.some.injEq] at hrevoke
      obtain ⟨leases, hspread, rfl⟩ := hrevoke
      exact ⟨leases, rfl, hspread⟩

theorem dispatch_stepped {context request : ℕ} {view : View} {opened : Opened}
    {headers : Dispatches.Headers} {method : Option JsString}
    (hview : state.views[context]? = some view)
    (hopened : state.requests[request]? = some opened)
    (hsender : state.sender context view opened = true)
    (hsettle : state.settle (.dispatched request)
      (state.dispatchProviderRequest view request opened headers method) = (later, emitted)) :
    Stepped state later emitted := by
  rw [State.dispatchProviderRequest] at hsettle
  cases hassert : state.assertProviderCallOpen view opened.request.provider
      opened.request.auxiliary with
  | some refusal =>
      rw [hassert] at hsettle
      obtain ⟨rfl, rfl⟩ := Prod.mk.inj hsettle
      exact .refused refusal
  | none =>
      rw [hassert] at hsettle
      dsimp only at hsettle
      by_cases hdispatched : opened.request.dispatched = true
      · rw [if_pos hdispatched] at hsettle
        obtain ⟨rfl, rfl⟩ := Prod.mk.inj hsettle
        exact .refused _
      · rw [if_neg hdispatched] at hsettle
        obtain ⟨rfl, rfl⟩ := Prod.mk.inj hsettle
        exact .dispatched context request view opened ⟨hopened, hview, hsender, hassert,
          by simpa using hdispatched, _, Dispatches.hasMethodOverride headers,
          rfl, rfl, rfl, rfl, rfl, rfl⟩

theorem step_cases (hmove : state.step event = some (later, emitted)) :
    Stepped state later emitted := by
  cases event
  all_goals
    simp only [State.step, State.closeProviderCall, guard, Option.bind_eq_bind,
      Option.bind_eq_some_iff, Option.pure_def, Option.some.injEq, Prod.mk.injEq] at hmove
  case operation leased logical classification =>
    obtain ⟨rfl, rfl⟩ := hmove
    exact .operation leased logical classification
  case providerCallContext context classification served =>
    obtain ⟨view, hview, rfl, rfl⟩ := hmove
    exact .entered context view classification served hview
  case providerRequest context auxiliary provider sent =>
    obtain ⟨view, hview, rfl, rfl⟩ := hmove
    exact .opened context view auxiliary provider sent hview
  case dispatchProviderRequest context request headers method =>
    obtain ⟨view, hview, opened, hopened, _, hguard, hsettle⟩ := hmove
    split_ifs at hguard with hsender
    exact dispatch_stepped hview hopened hsender hsettle
  case recordProviderResponse request status =>
    obtain ⟨opened, hopened, hsettle⟩ := hmove
    rw [State.recordProviderResponse] at hsettle
    split_ifs at hsettle with hanswered
    · obtain ⟨rfl, rfl⟩ := Prod.mk.inj hsettle
      exact .refused _
    · obtain ⟨rfl, rfl⟩ := Prod.mk.inj hsettle
      exact .answered request status opened hopened (by simpa using hanswered)
  case closeProviderCall context =>
    obtain ⟨view, hview, _, ⟨calls, hcalls, hrevoke⟩, rfl, rfl⟩ := hmove
    obtain ⟨leases, rfl, hleases⟩ := revoke_eq hrevoke
    exact .closed context view calls leases hview hcalls hleases
  case abort context =>
    obtain ⟨view, hview, _, hrevoke, rfl, rfl⟩ := hmove
    obtain ⟨leases, rfl, hleases⟩ := revoke_eq hrevoke
    exact .aborted context view leases hview hleases
  case endRequest =>
    obtain ⟨rfl, rfl⟩ := hmove
    exact .ended

section Operation

variable (state) (leased : Bool) (logical : Option (ℕ × ℕ))
  (classification : Option Classification)

@[simp] theorem operation_requests :
    (state.operation leased logical classification).requests = state.requests := by
  cases leased <;> rfl

/-- An operation's logical call has sent nothing yet. -/
theorem operation_logicals : ∃ more : List LogicalCall,
    (state.operation leased logical classification).logicals = state.logicals ++ more ∧
      more.length = logical.toList.length ∧ ∀ call ∈ more, call.sent = [] := by
  have hnew : ∀ call ∈ logical.toList.map fun target =>
      ({ target := target.1, entered := target.2, boundaries := [], sent := []
         auxiliaryReads := [], nonReadAuxiliaryDispatched := false } : LogicalCall),
      call.sent = [] := by
    intro call hmem
    obtain ⟨target, -, rfl⟩ := List.mem_map.mp hmem
    rfl
  cases leased <;> exact ⟨_, rfl, List.length_map _, hnew⟩

end Operation

/-! ## Facts that stay -/

/-- What is immutable about a request: what it was opened with, and the facts of
its dispatch and of its answer once they are recorded. -/
structure Keeps (before after : Opened) : Prop where
  view : after.view = before.view
  auxiliary : after.request.auxiliary = before.request.auxiliary
  provider : after.request.provider = before.request.provider
  key : after.request.key = before.request.key
  dispatched : before.request.dispatched = true → after.request.dispatched = true ∧
    after.request.method = before.request.method ∧
      after.request.classification = before.request.classification
  answered : ∀ status, before.request.status = some status →
    after.request.status = some status

theorem Keeps.refl (opened : Opened) : Keeps opened opened :=
  ⟨rfl, rfl, rfl, rfl, fun hdispatched => ⟨hdispatched, rfl, rfl⟩, fun _ => id⟩

theorem Keeps.trans {first second third : Opened} (hfirst : Keeps first second)
    (hsecond : Keeps second third) : Keeps first third where
  view := hsecond.view.trans hfirst.view
  auxiliary := hsecond.auxiliary.trans hfirst.auxiliary
  provider := hsecond.provider.trans hfirst.provider
  key := hsecond.key.trans hfirst.key
  dispatched hdispatched := by
    obtain ⟨hsent, hmethod, hclassification⟩ := hfirst.dispatched hdispatched
    obtain ⟨hlater, hmethod', hclassification'⟩ := hsecond.dispatched hsent
    exact ⟨hlater, hmethod'.trans hmethod, hclassification'.trans hclassification⟩
  answered status hstatus := hsecond.answered status (hfirst.answered status hstatus)

theorem step_keeps (hmove : state.step event = some (later, emitted)) {request : ℕ}
    {opened : Opened} (hfound : state.requests[request]? = some opened) :
    ∃ opened', later.requests[request]? = some opened' ∧ Keeps opened opened' := by
  have hlt := (List.getElem?_eq_some_iff.mp hfound).1
  cases step_cases hmove with
  | operation => exact ⟨opened, by rwa [operation_requests], Keeps.refl opened⟩
  | opened =>
      refine ⟨opened, ?_, Keeps.refl opened⟩
      exact (List.getElem?_append_left hlt).trans hfound
  | dispatched context other view sent hdispatches =>
      obtain ⟨final, overridden, rfl, -, hstatus, haux, hprovider, hkey⟩ := hdispatches.moved
      by_cases hother : other = request
      · subst hother
        obtain rfl := Option.some.inj (hdispatches.found.symm.trans hfound)
        refine ⟨_, List.getElem?_set_self hlt, rfl, haux, hprovider, hkey, ?_, ?_⟩
        · intro hdispatched
          rw [hdispatches.fresh] at hdispatched
          cases hdispatched
        · intro status hanswered
          exact hstatus.trans hanswered
      · exact ⟨opened, (List.getElem?_set_ne hother).trans hfound, Keeps.refl opened⟩
  | answered other status answered hanswered hnone =>
      by_cases hother : other = request
      · subst hother
        obtain rfl := Option.some.inj (hanswered.symm.trans hfound)
        refine ⟨_, List.getElem?_set_self hlt, rfl, rfl, rfl, rfl,
          fun hdispatched => ⟨hdispatched, rfl, rfl⟩, ?_⟩
        intro earlier hearlier
        rw [hnone] at hearlier
        cases hearlier
      · exact ⟨opened, (List.getElem?_set_ne hother).trans hfound, Keeps.refl opened⟩
  | entered | refused | closed | aborted | ended =>
      exact ⟨opened, hfound, Keeps.refl opened⟩

/-- A request keeps its facts in every later state. -/
theorem leads_keeps (hleads : ledgers.Leads state later) {request : ℕ} {opened : Opened}
    (hfound : state.requests[request]? = some opened) :
    ∃ opened', later.requests[request]? = some opened' ∧ Keeps opened opened' := by
  induction hleads with
  | refl => exact ⟨opened, hfound, Keeps.refl opened⟩
  | tail _ hmove ih =>
      obtain ⟨event, emitted, hmove⟩ := hmove
      obtain ⟨between, hbetween, hkeeps⟩ := ih
      obtain ⟨final, hfinal, hkeeps'⟩ := step_keeps hmove hbetween
      exact ⟨final, hfinal, hkeeps.trans hkeeps'⟩

/-! ## What the reports and the logical calls account for -/

namespace State

def dispatched (state : State) (request : ℕ) : Bool :=
  (state.requests[request]?).any fun opened => opened.request.dispatched

def answered (state : State) (request : ℕ) : Bool :=
  (state.requests[request]?).any fun opened => opened.request.status.isSome

/-- A dispatched resource request of a context under this logical call. -/
def owes (state : State) (logical request : ℕ) : Bool :=
  (state.requests[request]?).any fun opened =>
    opened.request.dispatched && !opened.request.auxiliary &&
      (state.views[opened.view]?).any fun view => view.logical = some logical

def sentCount (state : State) (logical request : ℕ) : ℕ :=
  (state.logicals[logical]?).elim 0 fun call => call.sent.count request

end State

structure Accounted (state : State) (outputs : List Report) : Prop where
  dispatched : ∀ request, outputs.count (.dispatched request) = (state.dispatched request).toNat
  answered : ∀ request, outputs.count (.answered request) = (state.answered request).toNat
  owners : ∀ (request : ℕ) (opened : Opened), state.requests[request]? = some opened →
    opened.view < state.views.length
  logicals : ∀ view ∈ state.views, ∀ logical, view.logical = some logical →
    logical < state.logicals.length
  sent : ∀ logical request,
    state.sentCount logical request = (state.owes logical request).toNat

/-- A step that touches no request may add contexts and logical calls. -/
theorem Accounted.quiet (haccounted : Accounted state outputs)
    {views : List View} {logicals : List LogicalCall}
    (hrequests : later.requests = state.requests)
    (hviews : later.views = state.views ++ views)
    (hlogicals : later.logicals = state.logicals ++ logicals)
    (hsent : ∀ call ∈ logicals, call.sent = [])
    (hvalid : ∀ view ∈ views, ∀ logical, view.logical = some logical →
      logical < later.logicals.length)
    (hemitted : ∀ request, emitted.count (.dispatched request) = 0 ∧
      emitted.count (.answered request) = 0) :
    Accounted later (outputs ++ emitted) where
  dispatched request := by
    rw [List.count_append, (hemitted request).1, haccounted.dispatched request,
      State.dispatched, State.dispatched, hrequests, Nat.add_zero]
  answered request := by
    rw [List.count_append, (hemitted request).2, haccounted.answered request,
      State.answered, State.answered, hrequests, Nat.add_zero]
  owners request opened hfound := by
    have := haccounted.owners request opened (hrequests ▸ hfound)
    rw [hviews, List.length_append]
    omega
  logicals view hmem logical hlogical := by
    rw [hviews, List.mem_append] at hmem
    cases hmem with
    | inl hmem =>
        have := haccounted.logicals view hmem logical hlogical
        rw [hlogicals, List.length_append]
        omega
    | inr hmem => exact hvalid view hmem logical hlogical
  sent logical request := by
    have howes : later.owes logical request = state.owes logical request := by
      unfold State.owes
      rw [hrequests]
      cases hfound : state.requests[request]? with
      | none => rfl
      | some opened =>
          have hlt := haccounted.owners request opened hfound
          rw [Option.any_some, Option.any_some, hviews, List.getElem?_append_left hlt]
    have hcount : later.sentCount logical request = state.sentCount logical request := by
      unfold State.sentCount
      rw [hlogicals, List.getElem?_append]
      split
      · rfl
      · rename_i hlt
        rw [List.getElem?_eq_none (not_lt.mp hlt)]
        cases hfound : logicals[logical - state.logicals.length]? with
        | none => rfl
        | some call =>
            rw [Option.elim_some, hsent call (List.mem_of_getElem? hfound)]
            rfl
    rw [hcount, howes]
    exact haccounted.sent logical request

theorem Accounted.opened (haccounted : Accounted state outputs) {context : ℕ}
    {request : ProviderRequest} (hcontext : context < state.views.length)
    (hfresh : request.dispatched = false) (hstatus : request.status = none)
    (hrequests : later.requests = state.requests ++ [{ request := request, view := context }])
    (hviews : later.views = state.views) (hlogicals : later.logicals = state.logicals) :
    Accounted later outputs := by
  have hany : ∀ (found : Opened → Bool) (other : ℕ),
      found { request := request, view := context } = false →
        (later.requests[other]?).any found = (state.requests[other]?).any found := by
    intro found other hfalse
    rw [hrequests, List.getElem?_append]
    split
    · rfl
    · rename_i hlt
      rw [List.getElem?_eq_none (not_lt.mp hlt)]
      rcases other - state.requests.length with _ | rest
      · exact hfalse
      · rfl
  constructor
  case dispatched =>
    intro other
    rw [haccounted.dispatched other, State.dispatched, State.dispatched, hany _ other hfresh]
  case answered =>
    intro other
    rw [haccounted.answered other, State.answered, State.answered, hany _ other]
    exact congrArg Option.isSome hstatus
  case owners =>
    intro other opened hfound
    rw [hrequests] at hfound
    rw [hviews]
    rcases List.mem_append.mp (List.mem_of_getElem? hfound) with hmem | hmem
    · obtain ⟨index, hindex⟩ := List.getElem?_of_mem hmem
      exact haccounted.owners index opened hindex
    · obtain rfl := List.mem_singleton.mp hmem
      exact hcontext
  case logicals =>
    rw [hviews, hlogicals]
    exact haccounted.logicals
  case sent =>
    intro logical other
    have howes : later.owes logical other = state.owes logical other := by
      unfold State.owes
      rw [hviews]
      exact hany _ other (by rw [hfresh, Bool.false_and, Bool.false_and])
    rw [howes, ← haccounted.sent logical other, State.sentCount, State.sentCount, hlogicals]

/-- One request's record is replaced: what is asked of the others stays. -/
theorem any_set_ne {requests : List Opened} {request other : ℕ} {opened : Opened}
    (hother : request ≠ other) (found : Opened → Bool) :
    ((requests.set request opened)[other]?).any found = (requests[other]?).any found := by
  rw [List.getElem?_set_ne hother]

theorem any_set_self {requests : List Opened} {request : ℕ} {opened before : Opened}
    (hbefore : requests[request]? = some before) (found : Opened → Bool) :
    ((requests.set request opened)[request]?).any found = found opened := by
  rw [List.getElem?_set_self (List.getElem?_eq_some_iff.mp hbefore).1]
  rfl

theorem Accounted.answers (haccounted : Accounted state outputs) {request status : ℕ}
    {opened : Opened} (hfound : state.requests[request]? = some opened)
    (hunanswered : opened.request.status = none) :
    Accounted { state with
      requests := state.requests.set request
        { opened with request := { opened.request with status := some status } } }
      (outputs ++ [.answered request]) := by
  have hsame : ∀ (found : Opened → Bool) (other : ℕ),
      found { opened with request := { opened.request with status := some status } } =
        found opened →
        ((state.requests.set request
          { opened with request := { opened.request with status := some status } })[other]?).any
            found = (state.requests[other]?).any found := by
    intro found other hequal
    by_cases hother : request = other
    · subst hother
      rw [any_set_self hfound, hfound]
      exact hequal
    · exact any_set_ne hother found
  constructor
  case dispatched =>
    intro other
    rw [List.count_append, haccounted.dispatched other]
    simp only [State.dispatched, hsame (fun found => found.request.dispatched) other rfl]
    simp
  case answered =>
    intro other
    rw [List.count_append, haccounted.answered other]
    simp only [State.answered]
    by_cases hother : request = other
    · subst hother
      rw [any_set_self hfound, hfound, Option.any_some, hunanswered]
      simp
    · rw [any_set_ne hother, List.count_singleton, if_neg (by simpa using hother), Nat.add_zero]
  case owners =>
    intro other before hbefore
    by_cases hother : request = other
    · subst hother
      rw [List.getElem?_set_self (List.getElem?_eq_some_iff.mp hfound).1] at hbefore
      obtain rfl := Option.some.inj hbefore
      exact haccounted.owners request opened hfound
    · rw [List.getElem?_set_ne hother] at hbefore
      exact haccounted.owners other before hbefore
  case logicals => exact haccounted.logicals
  case sent =>
    intro logical other
    refine (haccounted.sent logical other).trans (congrArg Bool.toNat ?_)
    exact (hsame _ other rfl).symm

/-- The request counts in its own logical call, which is the one its sender
records it in. -/
theorem Dispatches.logical {context request : ℕ} {view : View} {opened : Opened}
    (hdispatches : Dispatches state later context request view opened) (logical : ℕ)
    (howner : opened.view < state.views.length) :
    ((state.views[opened.view]?).any fun own => own.logical = some logical) =
      decide (view.logical = some logical) := by
  have hsent := hdispatches.sent
  rw [State.sender, Bool.or_eq_true, decide_eq_true_eq] at hsent
  rw [List.getElem?_eq_getElem howner, Option.any_some] at hsent ⊢
  cases hsent with
  | inl hown =>
      have hview := hdispatches.through
      subst hown
      rw [List.getElem?_eq_getElem howner] at hview
      rw [Option.some.inj hview]
  | inr hhanded =>
      rw [Bool.and_eq_true, decide_eq_true_eq] at hhanded
      rw [hhanded.2]

theorem recordDispatch_sent (request other : ℕ) (sent : ProviderRequest) (overridden : Bool)
    (logical : LogicalCall) :
    (State.recordDispatch request sent overridden logical).sent.count other =
      logical.sent.count other + (!sent.auxiliary && decide (request = other)).toNat := by
  unfold State.recordDispatch
  cases sent.auxiliary with
  | false =>
      rw [Bool.not_false, if_pos rfl, List.count_append, List.count_singleton, Bool.true_and]
      by_cases hother : request = other <;> simp [hother]
  | true =>
      rw [Bool.not_true, if_neg Bool.false_ne_true, Bool.false_and]
      split_ifs <;> rfl

theorem Accounted.dispatches (haccounted : Accounted state outputs) {context request : ℕ}
    {view : View} {opened : Opened}
    (hdispatches : Dispatches state later context request view opened) :
    Accounted later (outputs ++ [.dispatched request]) := by
  have hfound := hdispatches.found
  have howner := haccounted.owners request opened hfound
  obtain ⟨final, overridden, rfl, hdispatched, hstatus, hauxiliary, -⟩ := hdispatches.moved
  constructor
  case dispatched =>
    intro other
    rw [List.count_append, haccounted.dispatched other]
    simp only [State.dispatched]
    by_cases hother : request = other
    · subst hother
      rw [any_set_self hfound, hfound, Option.any_some, hdispatches.fresh, hdispatched]
      simp
    · rw [any_set_ne hother, List.count_singleton, if_neg (by simpa using hother), Nat.add_zero]
  case answered =>
    intro other
    rw [List.count_append, haccounted.answered other]
    simp only [State.answered]
    by_cases hother : request = other
    · subst hother
      rw [any_set_self hfound, hfound, Option.any_some, hstatus]
      simp
    · rw [any_set_ne hother]
      simp
  case owners =>
    intro other before hbefore
    by_cases hother : request = other
    · subst hother
      rw [List.getElem?_set_self (List.getElem?_eq_some_iff.mp hfound).1] at hbefore
      obtain rfl := Option.some.inj hbefore
      exact howner
    · rw [List.getElem?_set_ne hother] at hbefore
      exact haccounted.owners other before hbefore
  case logicals =>
    intro entered hmem logical hlogical
    have hlt := haccounted.logicals entered hmem logical hlogical
    cases view.logical with
    | none => exact hlt
    | some under => exact (List.length_modify ..).symm ▸ hlt
  case sent =>
    intro logical other
    have hview := haccounted.logicals view (List.mem_of_getElem? hdispatches.through)
    -- Only the sender's logical call gains the request, and only a resource request.
    have hcount : ({ state with
        requests := state.requests.set request { opened with request := final }
        logicals := view.logical.elim state.logicals fun logical =>
          state.logicals.modify logical (State.recordDispatch request final overridden) } :
          State).sentCount logical other =
        state.sentCount logical other +
          (decide (view.logical = some logical) &&
            (!final.auxiliary && decide (request = other))).toNat := by
      unfold State.sentCount
      cases hunder : view.logical with
      | none => simp
      | some under =>
          have hlt := hview under hunder
          rw [Option.elim_some, List.getElem?_modify]
          by_cases hsame : under = logical
          · subst hsame
            rw [List.getElem?_eq_getElem hlt]
            simp [recordDispatch_sent]
          · simp [hsame]
    rw [hcount, haccounted.sent logical other, ← hdispatches.logical logical howner]
    unfold State.owes
    by_cases hother : request = other
    · subst hother
      rw [any_set_self hfound, hfound, Option.any_some, hdispatches.fresh, hdispatched]
      simp [Bool.and_comm]
    · rw [any_set_ne hother]
      simp [hother]

theorem step_accounted (haccounted : Accounted state outputs)
    (hmove : state.step event = some (later, emitted)) :
    Accounted later (outputs ++ emitted) := by
  cases step_cases hmove with
  | operation leased logical classification =>
      obtain ⟨logicals, hlogicals, hlength, hsent⟩ :=
        operation_logicals state leased logical classification
      obtain ⟨view, hviews, hview⟩ : ∃ view,
          (state.operation leased logical classification).views = state.views ++ [view] ∧
            view.logical = logical.map fun _ => state.logicals.length := by
        cases leased <;> exact ⟨_, rfl, rfl⟩
      refine haccounted.quiet (operation_requests ..) hviews hlogicals hsent ?_ (by simp)
      intro view' hmem call hcall
      obtain rfl := List.mem_singleton.mp hmem
      rw [hview] at hcall
      obtain ⟨target, rfl, rfl⟩ := Option.map_eq_some_iff.mp hcall
      rw [hlogicals, List.length_append, hlength]
      exact Nat.lt_add_one _
  | entered context view classification served hview =>
      refine haccounted.quiet rfl rfl (List.append_nil _).symm (by simp) ?_ (by simp)
      intro view' hmem logical hlogical
      obtain rfl := List.mem_singleton.mp hmem
      dsimp only at hlogical
      split_ifs at hlogical
      exact haccounted.logicals view (List.mem_of_getElem? hview) logical hlogical
  | opened context view auxiliary provider sent hview =>
      have hcontext := (List.getElem?_eq_some_iff.mp hview).1
      rw [List.append_nil]
      exact haccounted.opened hcontext rfl rfl rfl rfl rfl
  | dispatched context request view opened hdispatches =>
      exact haccounted.dispatches hdispatches
  | answered request status opened hfound hunanswered =>
      exact haccounted.answers hfound hunanswered
  | refused | closed | aborted | ended =>
      exact haccounted.quiet rfl (List.append_nil _).symm (List.append_nil _).symm (by simp)
        (by simp) (by simp)

theorem run_accounted (hrun : ledgers.Run state outputs) : Accounted state outputs := by
  refine hrun.invariant (motive := Accounted) ?_ fun _ _ _ _ _ haccounted hmove =>
    step_accounted haccounted hmove
  rintro _ rfl
  constructor
  case owners => intro request opened hfound; cases hfound
  case logicals => intro view hmem; cases hmem
  all_goals intros; rfl

end Connecta.ProviderCalls
