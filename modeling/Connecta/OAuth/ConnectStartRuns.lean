import Connecta.OAuth.ConnectStart

/-!
# A forced flow resets once

The invariant ties every visitor to the writes of the reset record.  A visitor
that holds the reset made the last of them, and it is its only one; a visitor
that gave the reset up wrote the claim and its rollback next to each other; a
visitor that never claimed wrote nothing.  Once a start is recorded the record
is written no more.
-/

namespace Connecta.ConnectStart

open Connecta.Runtime
open Connecta.Transition
open Connecta.ExpiringStore

variable {flow : JsString} {expiry : JsString → ℕ} {opened : ℕ}
  {state : State} {reports emitted : List Report}

/-! ## The writes of the reset record -/

abbrev Write := ℕ × Option Mark × Option Mark

theorem resetWrites_append (earlier later : List Report) :
    resetWrites (earlier ++ later) =
      resetWrites earlier ++ resetWrites later := by
  induction earlier with
  | nil => rfl
  | cons report rest ih =>
      cases report with
      | wrote visitor before after =>
          simp only [List.cons_append, resetWrites, ih]
      | claimed visitor => simp only [List.cons_append, resetWrites, ih]
      | answered visitor answer => simp only [List.cons_append, resetWrites, ih]

theorem mem_resetWrites {visitor : ℕ} {before after : Option Mark}
    (hmem : Report.wrote visitor before after ∈ reports) :
    (visitor, before, after) ∈ resetWrites reports := by
  obtain ⟨earlier, later, rfl⟩ := List.append_of_mem hmem
  rw [resetWrites_append]
  exact List.mem_append_right _ (List.mem_cons_self ..)

/-- What the record was last set to. -/
def settledTo (writes : List Write) : Option Mark :=
  writes.getLast?.bind fun write => write.2.2

@[simp]
theorem settledTo_concat (writes : List Write) (write : Write) :
    settledTo (writes ++ [write]) = write.2.2 := by
  simp only [settledTo, List.getLast?_concat, Option.bind_some]

def Untouched (writes : List Write) (visitor : ℕ) : Prop :=
  ∀ write ∈ writes, write.1 ≠ visitor

def Started (writes : List Write) : Prop :=
  ∃ write ∈ writes, write.2.2 = some .started

/-- The last write is the claim of the visitor, which made no other. -/
def Claims (writes : List Write) (visitor : ℕ) (prior : Option Mark) : Prop :=
  ∃ others, writes = others ++ [(visitor, prior, some .used)] ∧
    Untouched others visitor ∧ prior ≠ some .started

/-- The visitor wrote a claim and, right after it, its rollback. -/
def Undone (writes : List Write) (visitor : ℕ) : Prop :=
  ∃ earlier later prior, writes = earlier ++
    [(visitor, prior, some .used), (visitor, some .used, prior)] ++ later ∧
      Untouched earlier visitor ∧ Untouched later visitor

/-- A write that settles the record is made by the visitor of the write before
it, a claim. -/
def Settles (writes : List Write) : Prop :=
  ∀ earlier later visitor before after,
    writes = earlier ++ (visitor, before, some after) :: later →
      after ≠ .used → before = some .used ∧
        ∃ others prior, earlier = others ++ [(visitor, prior, some .used)]

theorem Untouched.concat {writes : List Write} {visitor : ℕ} {write : Write}
    (huntouched : Untouched writes visitor) (hother : write.1 ≠ visitor) :
    Untouched (writes ++ [write]) visitor := by
  intro other hmem
  cases List.mem_append.mp hmem with
  | inl hmem => exact huntouched other hmem
  | inr hmem => rw [List.mem_singleton.mp hmem]; exact hother

theorem Started.append {writes : List Write} (hstarted : Started writes)
    (more : List Write) : Started (writes ++ more) := by
  obtain ⟨write, hmem, hwrite⟩ := hstarted
  exact ⟨write, List.mem_append_left _ hmem, hwrite⟩

theorem started_concat {writes : List Write} {write : Write}
    (hstarted : Started (writes ++ [write])) :
    Started writes ∨ write.2.2 = some .started := by
  obtain ⟨other, hmem, hother⟩ := hstarted
  cases List.mem_append.mp hmem with
  | inl hmem => exact Or.inl ⟨other, hmem, hother⟩
  | inr hmem => rw [List.mem_singleton.mp hmem] at hother; exact Or.inr hother

theorem started_of_settledTo {writes : List Write}
    (hlast : settledTo writes = some .started) : Started writes := by
  obtain ⟨write, hwrite, hmark⟩ := Option.bind_eq_some_iff.mp hlast
  exact ⟨write, List.mem_of_getLast? hwrite, hmark⟩

theorem Claims.settledTo {writes : List Write} {visitor : ℕ}
    {prior : Option Mark} (hclaims : Claims writes visitor prior) :
    settledTo writes = some .used := by
  obtain ⟨others, rfl, _⟩ := hclaims
  exact settledTo_concat others _

theorem Claims.unique {writes : List Write} {first second : ℕ}
    {prior prior' : Option Mark} (hfirst : Claims writes first prior)
    (hsecond : Claims writes second prior') : first = second := by
  obtain ⟨others, rfl, _⟩ := hfirst
  obtain ⟨others', hsame, _⟩ := hsecond
  exact congrArg Prod.fst (List.append_inj_right' hsame rfl |>
    List.cons.inj).1

theorem Undone.concat {writes : List Write} {visitor : ℕ} {write : Write}
    (hundone : Undone writes visitor) (hother : write.1 ≠ visitor) :
    Undone (writes ++ [write]) visitor := by
  obtain ⟨earlier, later, prior, rfl, hearlier, hlater⟩ := hundone
  exact ⟨earlier, later ++ [write], prior, List.append_assoc .., hearlier,
    hlater.concat hother⟩

/-- The rollback of the last claim. -/
theorem Claims.undone {writes : List Write} {visitor : ℕ} {prior : Option Mark}
    (hclaims : Claims writes visitor prior) :
    Undone (writes ++ [(visitor, some .used, prior)]) visitor := by
  obtain ⟨others, rfl, hothers, _⟩ := hclaims
  refine ⟨others, [], prior, ?_, hothers, fun _ hmem => by cases hmem⟩
  rw [List.append_nil, List.append_assoc]
  rfl

theorem Settles.concat {writes : List Write} {write : Write}
    (hsettles : Settles writes)
    (hwrite : ∀ after, write.2.2 = some after → after ≠ .used →
      write.2.1 = some .used ∧
        ∃ others prior, writes = others ++ [(write.1, prior, some .used)]) :
    Settles (writes ++ [write]) := by
  intro earlier later visitor before after heq hafter
  cases List.eq_nil_or_concat later with
  | inl hlast =>
      rw [hlast] at heq
      obtain ⟨rfl, hsame⟩ := List.append_inj' heq rfl
      obtain rfl := (List.cons.inj hsame).1
      exact hwrite after rfl hafter
  | inr hmore =>
      obtain ⟨rest, last, rfl⟩ := hmore
      rw [List.concat_eq_append, ← List.cons_append, ← List.append_assoc] at heq
      exact hsettles earlier rest visitor before after
        (List.append_inj' heq rfl).1 hafter

/-! ## Where each visitor stands -/

/-- What a visitor had to do with the reset record.  `barred`: no visitor gets
there. -/
inductive Standing where
  | idle
  | follows
  | holds (prior : Option Mark)
  | holder
  | undone
  | past
  | barred

def Standing.Meets (writes : List Write) (visitor : ℕ) : Standing → Prop
  | .idle => Untouched writes visitor
  | .follows => Untouched writes visitor ∧ Started writes
  | .holds prior => Claims writes visitor prior
  | .holder => ∃ prior, Claims writes visitor prior
  | .undone => Undone writes visitor
  | .past => True
  | .barred => False

/-- `claiming`: the visitor claimed the reset. -/
def Phase.standing (claiming : Bool) (phase : Phase) : Standing :=
  match claiming, phase with
  | false, .absent | false, .reading => .idle
  | false, .read prior => if prior = some .started then .follows else .idle
  | false, .claimingReset prior =>
      if prior = some .used ∨ prior = some .started then .barred else .idle
  | false, .claimedReset _ won => if won then .barred else .idle
  | false, .answered .reset => .barred
  | false, .answered .continue => .follows
  | false, .answered _ => .idle
  | false, .rollingBack _ | false, .rolledBack => .barred
  | false, _ => .follows
  | true, .claimedReset prior won => if won then .holds prior else .barred
  | true, .claimingNonce prior _ | true, .claimedNonce prior _
  | true, .rollingBack prior => .holds prior
  | true, .answered .reset | true, .settling _ => .holder
  | true, .rolledBack | true, .answered .refused => .undone
  | true, .settled _ | true, .marking _ _ | true, .marked _
  | true, .finished _ => .past
  | true, _ => .barred

/-- What a visitor wrote by the time it is where it is. -/
def Tracks (writes : List Write) (visitor : ℕ) (current : Visitor) : Prop :=
  (current.phase.standing current.claiming).Meets writes visitor

theorem Tracks.claims {writes : List Write} {visitor : ℕ}
    (htracks : Tracks writes visitor (state.visitors visitor))
    (hholds : Holds state visitor) : ∃ prior, Claims writes visitor prior := by
  obtain ⟨hclaiming, hphase⟩ := hholds
  simp only [Tracks, Phase.standing, hclaiming] at htracks
  cases hcurrent : (state.visitors visitor).phase with
  | claimedReset prior won =>
      rw [hcurrent] at htracks
      cases won with
      | true => exact ⟨prior, htracks⟩
      | false => exact htracks.elim
  | claimingNonce prior ttlSeconds =>
      rw [hcurrent] at htracks
      exact ⟨prior, htracks⟩
  | claimedNonce prior won =>
      rw [hcurrent] at htracks
      exact ⟨prior, htracks⟩
  | rollingBack prior =>
      rw [hcurrent] at htracks
      exact ⟨prior, htracks⟩
  | settling outcome =>
      rw [hcurrent] at htracks
      exact htracks
  | answered answer =>
      rw [hcurrent] at htracks hphase
      cases answer with
      | reset => exact htracks
      | «continue» => exact hphase.elim
      | pending => exact hphase.elim
      | refused => exact hphase.elim
  | _ => rw [hcurrent] at hphase; exact hphase.elim

/-- A visitor that answered `pending` or `refused` never wrote or took its write
back. -/
theorem Tracks.undone {writes : List Write} {visitor : ℕ} {current : Visitor}
    (htracks : Tracks writes visitor current) {answer : Answer}
    (hphase : current.phase = .answered answer)
    (hanswer : answer = .pending ∨ answer = .refused) :
    Untouched writes visitor ∨ Undone writes visitor := by
  simp only [Tracks, Phase.standing, hphase] at htracks
  cases hclaiming : current.claiming with
  | false =>
      rw [hclaiming] at htracks
      cases hanswer with
      | inl hpending => subst hpending; exact Or.inl htracks
      | inr hrefused => subst hrefused; exact Or.inl htracks
  | true =>
      rw [hclaiming] at htracks
      cases hanswer with
      | inl hpending => subst hpending; exact htracks.elim
      | inr hrefused => subst hrefused; exact Or.inr htracks

/-- A visitor moves on and stands where it stood. -/
theorem Tracks.turn {writes : List Write} {visitor : ℕ} {current : Visitor}
    (htracks : Tracks writes visitor current) {before : Phase}
    (hphase : current.phase = before) (phase : Phase)
    (hsame : ∀ claiming, phase.standing claiming = before.standing claiming) :
    Tracks writes visitor { current with phase := phase } := by
  simp only [Tracks, hphase] at htracks ⊢
  rw [hsame]
  exact htracks

/-- The write of another leaves what is known of a visitor that does not hold
the reset. -/
theorem Tracks.concat {writes : List Write} {visitor : ℕ} {current : Visitor}
    (htracks : Tracks writes visitor current) {write : Write}
    (hother : write.1 ≠ visitor)
    (hholds : ∀ prior, ¬ Claims writes visitor prior) :
    Tracks (writes ++ [write]) visitor current := by
  simp only [Tracks] at htracks ⊢
  cases hstanding : current.phase.standing current.claiming with
  | idle =>
      rw [hstanding] at htracks
      exact Untouched.concat htracks hother
  | follows =>
      rw [hstanding] at htracks
      exact ⟨htracks.1.concat hother, htracks.2.append _⟩
  | holds prior =>
      rw [hstanding] at htracks
      exact absurd htracks (hholds prior)
  | holder =>
      rw [hstanding] at htracks
      obtain ⟨prior, hclaims⟩ := htracks
      exact absurd hclaims (hholds prior)
  | undone =>
      rw [hstanding] at htracks
      exact Undone.concat htracks hother
  | past => trivial
  | barred =>
      rw [hstanding] at htracks
      exact htracks.elim

/-! ## The invariant -/

/-- No claim of the reset is answered after a start was recorded. -/
def Ordered (reports : List Report) : Prop :=
  ∀ earlier later visitor, reports = earlier ++ later →
    Started (resetWrites earlier) → Report.answered visitor .reset ∉ later

theorem Ordered.append (hordered : Ordered reports)
    (hreset : ∀ visitor, Report.answered visitor .reset ∈ emitted →
      resetWrites emitted = [] ∧ ¬ Started (resetWrites reports)) :
    Ordered (reports ++ emitted) := by
  intro earlier later visitor heq hstarted hmem
  cases List.append_eq_append_iff.mp heq with
  | inl hafter =>
      obtain ⟨rest, rfl, rfl⟩ := hafter
      obtain ⟨hquiet, hnone⟩ := hreset visitor (List.mem_append_right _ hmem)
      rw [resetWrites_append, List.append_eq_nil_iff] at hquiet
      rw [resetWrites_append, hquiet.1, List.append_nil] at hstarted
      exact hnone hstarted
  | inr hbefore =>
      obtain ⟨rest, rfl, rfl⟩ := hbefore
      cases List.mem_append.mp hmem with
      | inl hmem => exact hordered earlier rest visitor rfl hstarted hmem
      | inr hmem =>
          rw [resetWrites_append] at hreset
          exact (hreset visitor hmem).2 (hstarted.append _)

structure Consistent (flow : JsString) (expiry : JsString → ℕ) (state : State)
    (reports : List Report) : Prop where
  raw : (state.store (.reset flow)).map Entry.value =
    settledTo (resetWrites reports)
  joined : ∀ visitor, (state.visitors visitor).phase ≠ .absent →
    (state.visitors visitor).handoff.ofFlow flow expiry = true
  tracks : ∀ visitor,
    Tracks (resetWrites reports) visitor (state.visitors visitor)
  started : Started (resetWrites reports) →
    settledTo (resetWrites reports) = some .started
  settles : Settles (resetWrites reports)
  spent : ∀ visitor, Report.claimed visitor ∈ reports →
    (state.visitors visitor).phase ≠ .absent ∧
      state.store (.used (state.visitors visitor).handoff.nonce) ≠ none
  links : ∀ first second, Report.claimed first ∈ reports →
    Report.claimed second ∈ reports →
      (state.visitors first).handoff.nonce =
          (state.visitors second).handoff.nonce → first = second
  answers : ∀ visitor answer, Report.answered visitor answer ∈ reports →
    answer = .pending ∨ answer = .refused →
      (state.visitors visitor).phase = .answered answer
  ordered : Ordered reports

theorem resetKey_of_joined {handoff : Handoff}
    (hjoined : handoff.ofFlow flow expiry = true) :
    handoff.resetKey = .reset flow := by
  simp only [Handoff.ofFlow, Bool.and_eq_true, decide_eq_true_eq] at hjoined
  rw [Handoff.resetKey, hjoined.1.2]

theorem Consistent.resetsOnce (hkept : Consistent flow expiry state reports) :
    ResetsOnce state reports where
  single first second hfirst hsecond := by
    obtain ⟨prior, hclaims⟩ := (hkept.tracks first).claims hfirst
    obtain ⟨prior', hclaims'⟩ := (hkept.tracks second).claims hsecond
    exact hclaims.unique hclaims'
  started earlier later visitor other before heq hmem := by
    apply hkept.ordered earlier later other heq
    exact ⟨_, mem_resetWrites hmem, rfl⟩
  links := hkept.links
  undone visitor answer hmem hanswer := by
    have hphase := hkept.answers visitor answer hmem hanswer
    exact (hkept.tracks visitor).undone hphase hanswer
  holder := hkept.settles

/-! ## One step -/

/-- The visitor once it moved to another phase, and the store it left. -/
def State.moved (state : State) (visitor : ℕ) (next : Visitor)
    (store : Store Key Mark) : State :=
  { state with
    store := store, visitors := Function.update state.visitors visitor next }

theorem moved_self (state : State) (visitor : ℕ) (next : Visitor)
    (store : Store Key Mark) :
    (state.moved visitor next store).visitors visitor = next := by
  simp only [State.moved, Function.update_self]

theorem moved_of_ne (state : State) {visitor other : ℕ} (hother : other ≠ visitor)
    (next : Visitor) (store : Store Key Mark) :
    (state.moved visitor next store).visitors other = state.visitors other := by
  simp only [State.moved, Function.update_of_ne hother]

/-- A visitor's own move: it stays with its link, and had not answered
`pending` or `refused`. -/
structure Moves (flow : JsString) (expiry : JsString → ℕ) (current next : Visitor) :
    Prop where
  joined : next.handoff.ofFlow flow expiry = true
  present : next.phase ≠ .absent
  same : current.phase ≠ .absent → next.handoff = current.handoff
  pending : current.phase ≠ .answered .pending
  refused : current.phase ≠ .answered .refused

theorem Consistent.frame (hkept : Consistent flow expiry state reports)
    {visitor : ℕ} {next : Visitor}
    (hmoves : Moves flow expiry (state.visitors visitor) next)
    (store : Store Key Mark) :
    (∀ other, ((state.moved visitor next store).visitors other).phase ≠ .absent →
        ((state.moved visitor next store).visitors other).handoff.ofFlow flow
          expiry = true) ∧
      (∀ other, Report.claimed other ∈ reports →
        ((state.moved visitor next store).visitors other).phase ≠ .absent ∧
          ((state.moved visitor next store).visitors other).handoff =
            (state.visitors other).handoff) ∧
      ∀ other answer, Report.answered other answer ∈ reports →
        answer = .pending ∨ answer = .refused →
          ((state.moved visitor next store).visitors other).phase =
            .answered answer := by
  refine ⟨fun other hpresent => ?_, fun other hmem => ?_,
    fun other answer hmem hanswer => ?_⟩
  · by_cases hother : other = visitor
    · rw [hother, moved_self]
      exact hmoves.joined
    · rw [moved_of_ne _ hother] at hpresent ⊢
      exact hkept.joined other hpresent
  · by_cases hother : other = visitor
    · rw [hother, moved_self]
      exact ⟨hmoves.present,
        hmoves.same (hother ▸ (hkept.spent other hmem).1)⟩
    · rw [moved_of_ne _ hother]
      exact ⟨(hkept.spent other hmem).1, rfl⟩
  · have hphase := hkept.answers other answer hmem hanswer
    by_cases hother : other = visitor
    · rw [hother] at hphase
      cases hanswer with
      | inl hpending => exact absurd (hpending ▸ hphase) hmoves.pending
      | inr hrefused => exact absurd (hrefused ▸ hphase) hmoves.refused
    · rw [moved_of_ne _ hother]
      exact hphase

/-- What a step that leaves the reset record alone may report. -/
inductive Quiet (state : State) (writes : List Write) (visitor : ℕ)
    (next : Visitor) (store : Store Key Mark) : List Report → Prop where
  | silent : Quiet state writes visitor next store []
  | answered (answer : Answer) : next.phase = .answered answer →
      (answer = .reset → ¬ Started writes) →
        Quiet state writes visitor next store [.answered visitor answer]
  | claimed : state.store (.used next.handoff.nonce) = none →
      store (.used next.handoff.nonce) ≠ none →
        Quiet state writes visitor next store [.claimed visitor]

theorem Quiet.resetWrites {writes : List Write} {visitor : ℕ} {next : Visitor}
    {store : Store Key Mark}
    (hquiet : Quiet state writes visitor next store emitted) :
    resetWrites emitted = [] := by
  cases hquiet <;> rfl

theorem Consistent.quiet (hkept : Consistent flow expiry state reports)
    {visitor : ℕ} {next : Visitor} {store : Store Key Mark}
    (hmoves : Moves flow expiry (state.visitors visitor) next)
    (hreset : store (.reset flow) = state.store (.reset flow))
    (hused : ∀ nonce, state.store (.used nonce) ≠ none →
      store (.used nonce) ≠ none)
    (htracks : Tracks (resetWrites reports) visitor next)
    (hquiet : Quiet state (resetWrites reports) visitor next store emitted) :
    Consistent flow expiry (state.moved visitor next store)
      (reports ++ emitted) := by
  have hwrites : resetWrites (reports ++ emitted) = resetWrites reports := by
    rw [resetWrites_append, hquiet.resetWrites, List.append_nil]
  obtain ⟨hjoined, hspent, hanswers⟩ := hkept.frame hmoves store
  constructor
  · calc
      (store (.reset flow)).map Entry.value =
          (state.store (.reset flow)).map Entry.value := by rw [hreset]
      _ = settledTo (resetWrites reports) := hkept.raw
      _ = settledTo (resetWrites (reports ++ emitted)) := by rw [hwrites]
  · exact hjoined
  · intro other
    rw [hwrites]
    by_cases hother : other = visitor
    · rw [hother, moved_self]
      exact htracks
    · rw [moved_of_ne _ hother]
      exact hkept.tracks other
  · rw [hwrites]
    exact hkept.started
  · rw [hwrites]
    exact hkept.settles
  · intro other hmem
    cases List.mem_append.mp hmem with
    | inl hmem =>
        rw [(hspent other hmem).2]
        exact ⟨(hspent other hmem).1, hused _ (hkept.spent other hmem).2⟩
    | inr hmem =>
        cases hquiet with
        | silent => cases hmem
        | answered answer => simp only [List.mem_singleton, reduceCtorEq] at hmem
        | claimed hnone hsome =>
            obtain rfl := Report.claimed.inj (List.mem_singleton.mp hmem)
            rw [moved_self]
            exact ⟨hmoves.present, hsome⟩
  · have hapart : ∀ other, Report.claimed other ∈ reports →
        state.store (.used next.handoff.nonce) = none →
          ((state.moved visitor next store).visitors other).handoff.nonce ≠
            next.handoff.nonce := by
      intro other hmem hnone hsame
      rw [(hspent other hmem).2] at hsame
      exact (hkept.spent other hmem).2 (hsame ▸ hnone)
    intro first second hfirst hsecond hsame
    cases List.mem_append.mp hfirst with
    | inl hearly =>
        cases List.mem_append.mp hsecond with
        | inl hearly' =>
            rw [(hspent first hearly).2, (hspent second hearly').2] at hsame
            exact hkept.links first second hearly hearly' hsame
        | inr hlate =>
            cases hquiet with
            | silent => cases hlate
            | answered answer =>
                simp only [List.mem_singleton, reduceCtorEq] at hlate
            | claimed hnone hsome =>
                obtain rfl := Report.claimed.inj (List.mem_singleton.mp hlate)
                rw [moved_self] at hsame
                exact absurd hsame (hapart first hearly hnone)
    | inr hlate =>
        cases hquiet with
        | silent => cases hlate
        | answered answer => simp only [List.mem_singleton, reduceCtorEq] at hlate
        | claimed hnone hsome =>
            obtain rfl := Report.claimed.inj (List.mem_singleton.mp hlate)
            cases List.mem_append.mp hsecond with
            | inl hearly =>
                rw [moved_self] at hsame
                exact absurd hsame.symm (hapart second hearly hnone)
            | inr hlate' =>
                exact (Report.claimed.inj (List.mem_singleton.mp hlate')).symm
  · intro other answer hmem hanswer
    cases List.mem_append.mp hmem with
    | inl hmem => exact hanswers other answer hmem hanswer
    | inr hmem =>
        cases hquiet with
        | silent => cases hmem
        | answered answer' hphase =>
            obtain ⟨rfl, rfl⟩ := Report.answered.inj (List.mem_singleton.mp hmem)
            rw [moved_self]
            exact hphase
        | claimed => simp only [List.mem_singleton, reduceCtorEq] at hmem
  · apply hkept.ordered.append
    intro other hmem
    refine ⟨hquiet.resetWrites, ?_⟩
    cases hquiet with
    | silent => cases hmem
    | answered answer hphase hreset =>
        exact hreset (Report.answered.inj (List.mem_singleton.mp hmem)).2.symm
    | claimed => simp only [List.mem_singleton, reduceCtorEq] at hmem

/-- The visitor writes the reset record: nobody else holds the reset, and no
start has been recorded. -/
theorem Consistent.write (hkept : Consistent flow expiry state reports)
    {visitor : ℕ} {next : Visitor} {before after : Option Mark}
    {expiresAt : Option ℕ}
    (hmoves : Moves flow expiry (state.visitors visitor) next)
    (hstarted : ¬ Started (resetWrites reports))
    (hholds : ∀ other prior, Claims (resetWrites reports) other prior →
      other = visitor)
    (hsettles : ∀ mark, after = some mark → mark ≠ .used →
      before = some .used ∧ ∃ others prior,
        resetWrites reports = others ++ [(visitor, prior, some .used)])
    (htracks : Tracks (resetWrites reports ++ [(visitor, before, after)]) visitor
      next) :
    Consistent flow expiry
      (state.moved visitor next (put state.store (.reset flow) after expiresAt))
      (reports ++ [.wrote visitor before after]) := by
  have hwrites : resetWrites (reports ++ [.wrote visitor before after]) =
      resetWrites reports ++ [(visitor, before, after)] := by
    rw [resetWrites_append]
    rfl
  set store := put state.store (.reset flow) after expiresAt with hstore
  have hused : ∀ nonce, store (.used nonce) = state.store (.used nonce) :=
    fun nonce => put_of_ne _ (by simp) _ _
  obtain ⟨hjoined, hspent, hanswers⟩ := hkept.frame hmoves store
  have hclaimed : ∀ other,
      Report.claimed other ∈ reports ++ [.wrote visitor before after] →
        Report.claimed other ∈ reports := by
    intro other hmem
    cases List.mem_append.mp hmem with
    | inl hmem => exact hmem
    | inr hmem => simp only [List.mem_singleton, reduceCtorEq] at hmem
  constructor
  · rw [hwrites, settledTo_concat]
    show (store (.reset flow)).map Entry.value = after
    rw [hstore, put_self]
    cases after <;> rfl
  · exact hjoined
  · intro other
    rw [hwrites]
    by_cases hother : other = visitor
    · rw [hother, moved_self]
      exact htracks
    · rw [moved_of_ne _ hother]
      apply (hkept.tracks other).concat (Ne.symm hother)
      exact fun prior hclaims => hother (hholds other prior hclaims)
  · rw [hwrites]
    intro hlater
    rw [settledTo_concat]
    exact (started_concat hlater).resolve_left hstarted
  · rw [hwrites]
    exact hkept.settles.concat hsettles
  · intro other hmem
    have hold := hclaimed other hmem
    rw [(hspent other hold).2]
    exact ⟨(hspent other hold).1,
      (hused _).trans_ne (hkept.spent other hold).2⟩
  · intro first second hfirst hsecond hsame
    have hfirst := hclaimed first hfirst
    have hsecond := hclaimed second hsecond
    rw [(hspent first hfirst).2, (hspent second hsecond).2] at hsame
    exact hkept.links first second hfirst hsecond hsame
  · intro other answer hmem hanswer
    cases List.mem_append.mp hmem with
    | inl hmem => exact hanswers other answer hmem hanswer
    | inr hmem => simp only [List.mem_singleton, reduceCtorEq] at hmem
  · apply hkept.ordered.append
    intro other hmem
    simp only [List.mem_singleton, reduceCtorEq] at hmem

/-- A phase from which the visitor goes on. -/
def Phase.going : Phase → Bool
  | .absent | .answered .pending | .answered .refused => false
  | _ => true

theorem Consistent.moves (hkept : Consistent flow expiry state reports)
    {visitor : ℕ} {next : Visitor}
    (hgoing : (state.visitors visitor).phase.going = true)
    (hhandoff : next.handoff = (state.visitors visitor).handoff)
    (hpresent : next.phase ≠ .absent) :
    Moves flow expiry (state.visitors visitor) next where
  joined := by
    rw [hhandoff]
    apply hkept.joined
    intro habsent
    rw [habsent] at hgoing
    cases hgoing
  present := hpresent
  same _ := hhandoff
  pending hphase := by rw [hphase] at hgoing; cases hgoing
  refused hphase := by rw [hphase] at hgoing; cases hgoing

/-- A visitor moves on without an operation. -/
theorem Consistent.setPhase (hkept : Consistent flow expiry state reports)
    {visitor : ℕ} {phase : Phase}
    (hgoing : (state.visitors visitor).phase.going = true)
    (hpresent : phase ≠ .absent)
    (htracks : Tracks (resetWrites reports) visitor
      { state.visitors visitor with phase := phase })
    (hquiet : Quiet state (resetWrites reports) visitor
      { state.visitors visitor with phase := phase } state.store emitted) :
    Consistent flow expiry (state.setPhase visitor phase) (reports ++ emitted) :=
  hkept.quiet (hkept.moves hgoing rfl hpresent) rfl (fun _ => id) htracks hquiet

/-- A visitor moves on with a write to the reset record. -/
theorem Consistent.setReset (hkept : Consistent flow expiry state reports)
    {visitor : ℕ} {claiming : Bool} {phase : Phase} {before after : Option Mark}
    {expiresAt : Option ℕ}
    (hgoing : (state.visitors visitor).phase.going = true)
    (hpresent : phase ≠ .absent) (hstarted : ¬ Started (resetWrites reports))
    (hholds : ∀ other prior, Claims (resetWrites reports) other prior →
      other = visitor)
    (hsettles : ∀ mark, after = some mark → mark ≠ .used →
      before = some .used ∧ ∃ others prior,
        resetWrites reports = others ++ [(visitor, prior, some .used)])
    (htracks : Tracks (resetWrites reports ++ [(visitor, before, after)]) visitor
      { state.visitors visitor with claiming := claiming, phase := phase }) :
    Consistent flow expiry
      (state.moved visitor
        { state.visitors visitor with claiming := claiming, phase := phase }
        (put state.store (.reset flow) after expiresAt))
      (reports ++ [.wrote visitor before after]) :=
  hkept.write (hkept.moves hgoing rfl hpresent) hstarted hholds hsettles htracks

/-- Nobody holds the reset, and no start is recorded, where the record may be
claimed. -/
theorem Consistent.free (hkept : Consistent flow expiry state reports)
    (hfree : settledTo (resetWrites reports) = none ∨
      settledTo (resetWrites reports) = some .failed) :
    ¬ Started (resetWrites reports) ∧
      ∀ other prior, ¬ Claims (resetWrites reports) other prior := by
  constructor
  · intro hstarted
    rw [hkept.started hstarted] at hfree
    simp at hfree
  · intro other prior hclaims
    rw [hclaims.settledTo] at hfree
    simp at hfree

/-- A claim that lands in time on the value it read finds the record free. -/
theorem free_of_read {store : Store Key Mark} {now : ℕ} {key : Key}
    {prior : Option Mark} (hread : read store now key = prior)
    (hused : prior ≠ some .used) (hstarted : prior ≠ some .started)
    (htimely : ((lapsed store now key).any fun mark => mark ≠ .failed) = false) :
    (store key).map Entry.value = none ∨
      (store key).map Entry.value = some .failed := by
  cases raw_cases store now key with
  | inl hfresh =>
      rw [hfresh.1, hread]
      cases prior with
      | none => exact Or.inl rfl
      | some mark =>
          cases mark with
          | used => exact absurd rfl hused
          | started => exact absurd rfl hstarted
          | failed => exact Or.inr rfl
  | inr hlapsed =>
      rw [hlapsed.1]
      cases hmark : lapsed store now key with
      | none => exact Or.inl rfl
      | some mark =>
          rw [hmark] at htimely
          cases mark with
          | used => cases htimely
          | started => cases htimely
          | failed => exact Or.inr rfl

/-! ## An operation lands -/

theorem Consistent.landReset (hkept : Consistent flow expiry state reports)
    {visitor : ℕ} {prior : Option Mark} {later : State}
    (hphase : (state.visitors visitor).phase = .claimingReset prior)
    (htimely : state.overdue (.land visitor) = false)
    (hmove : state.land visitor (state.visitors visitor) =
      some (later, emitted)) :
    Consistent flow expiry later (reports ++ emitted) := by
  have hgoing : (state.visitors visitor).phase.going = true := by
    rw [hphase]
    rfl
  have hjoined := hkept.joined visitor (by rw [hphase]; exact nofun)
  have hkey := resetKey_of_joined hjoined
  have htracks := hkept.tracks visitor
  simp only [Tracks, Phase.standing, hphase] at htracks
  cases hclaiming : (state.visitors visitor).claiming with
  | true => rw [hclaiming] at htracks; exact htracks.elim
  | false =>
      simp only [hclaiming] at htracks
      split at htracks
      case isTrue => exact htracks.elim
      case isFalse hprior =>
          rw [not_or] at hprior
          simp only [State.overdue, hphase, hkey] at htimely
          simp only [State.land, hphase, State.compareAndSet, hkey] at hmove
          cases compareAndSet_cases state.store state.now (.reset flow) prior
            (some Mark.used) (some (state.now + flowResetExpiry * 1000)) with
          | inl hwon =>
              rw [hwon.2, if_pos rfl] at hmove
              obtain ⟨rfl, rfl⟩ := Prod.mk.inj (Option.some.inj hmove)
              have hfree := hkept.free (hkept.raw ▸
                free_of_read hwon.1 hprior.1 hprior.2 htimely)
              show Consistent flow expiry (state.moved visitor
                { state.visitors visitor with
                  claiming := true, phase := .claimedReset prior true } _) _
              apply hkept.setReset hgoing (by simp) hfree.1
              · exact fun other prior' hclaims =>
                  absurd hclaims (hfree.2 other prior')
              · exact fun mark hmark hused =>
                  absurd (Option.some.inj hmark).symm hused
              · exact ⟨resetWrites reports, rfl, htracks, hprior.2⟩
          | inr hlost =>
              rw [hlost.2, if_neg Bool.false_ne_true] at hmove
              obtain ⟨rfl, rfl⟩ := Prod.mk.inj (Option.some.inj hmove)
              show Consistent flow expiry
                (state.setPhase visitor (.claimedReset prior false)) _
              apply hkept.setPhase hgoing (by simp)
              · simp only [Tracks, Phase.standing, hclaiming]
                exact htracks
              · exact .silent

/-- A visitor moves on with an operation on its link's record. -/
theorem Consistent.setUsed (hkept : Consistent flow expiry state reports)
    {visitor : ℕ} {phase : Phase} {mark : Mark} {expiresAt : Option ℕ}
    (hgoing : (state.visitors visitor).phase.going = true)
    (hpresent : phase ≠ .absent)
    (htracks : Tracks (resetWrites reports) visitor
      { state.visitors visitor with phase := phase })
    (hquiet : emitted = [] ∨ emitted = [.claimed visitor] ∧
      state.store (.used (state.visitors visitor).handoff.nonce) = none) :
    Consistent flow expiry
      (state.moved visitor { state.visitors visitor with phase := phase }
        (put state.store (.used (state.visitors visitor).handoff.nonce)
          (some mark) expiresAt))
      (reports ++ emitted) := by
  have hmoves : Moves flow expiry (state.visitors visitor)
      { state.visitors visitor with phase := phase } :=
    hkept.moves hgoing rfl hpresent
  apply hkept.quiet hmoves
  · exact put_of_ne _ (by simp) _ _
  · intro nonce hnonce
    by_cases hsame : nonce = (state.visitors visitor).handoff.nonce
    · rw [hsame, put_self]
      exact nofun
    · rw [put_of_ne _ (by simpa using hsame)]
      exact hnonce
  · exact htracks
  · cases hquiet with
    | inl hsilent => rw [hsilent]; exact .silent
    | inr hclaimed =>
        rw [hclaimed.1]
        apply Quiet.claimed
        · exact hclaimed.2
        · rw [put_self]
          exact nofun

theorem Consistent.landNonce (hkept : Consistent flow expiry state reports)
    {visitor : ℕ} {prior : Option Mark} {ttlSeconds : ℕ} {later : State}
    (hphase : (state.visitors visitor).phase = .claimingNonce prior ttlSeconds)
    (htimely : state.overdue (.land visitor) = false)
    (hmove : state.land visitor (state.visitors visitor) =
      some (later, emitted)) :
    Consistent flow expiry later (reports ++ emitted) := by
  have hgoing : (state.visitors visitor).phase.going = true := by
    rw [hphase]
    rfl
  set nonce := (state.visitors visitor).handoff.nonce with hnonce
  have htracks : ∀ won, Tracks (resetWrites reports) visitor
      { state.visitors visitor with phase := .claimedNonce prior won } := by
    intro won
    apply (hkept.tracks visitor).turn hphase
    intro claiming
    cases claiming <;> rfl
  simp only [State.overdue, hphase, Option.isSome_eq_false_iff,
    Option.isNone_iff_eq_none] at htimely
  simp only [State.land, hphase, State.compareAndSet, ← hnonce] at hmove
  cases compareAndSet_cases state.store state.now (.used nonce) none
    (some Mark.used) (some (state.now + ttlSeconds * 1000)) with
  | inl hwon =>
      rw [hwon.2, if_pos rfl] at hmove
      obtain ⟨rfl, rfl⟩ := Prod.mk.inj (Option.some.inj hmove)
      show Consistent flow expiry (state.moved visitor
        { state.visitors visitor with phase := .claimedNonce prior true } _) _
      apply hkept.setUsed hgoing (by simp) (htracks true)
      apply Or.inr
      have hnone := (raw_of_fresh htimely).trans hwon.1
      exact ⟨rfl, Option.map_eq_none_iff.mp hnone⟩
  | inr hlost =>
      rw [hlost.2, if_neg Bool.false_ne_true] at hmove
      obtain ⟨rfl, rfl⟩ := Prod.mk.inj (Option.some.inj hmove)
      show Consistent flow expiry
        (state.setPhase visitor (.claimedNonce prior false)) _
      exact hkept.setPhase hgoing (by simp) (htracks false) .silent

theorem Consistent.landRollback (hkept : Consistent flow expiry state reports)
    {visitor : ℕ} {prior : Option Mark} {later : State}
    (hphase : (state.visitors visitor).phase = .rollingBack prior)
    (htimely : state.overdue (.land visitor) = false)
    (hmove : state.land visitor (state.visitors visitor) =
      some (later, emitted)) :
    Consistent flow expiry later (reports ++ emitted) := by
  have hgoing : (state.visitors visitor).phase.going = true := by
    rw [hphase]
    rfl
  have hjoined := hkept.joined visitor (by rw [hphase]; exact nofun)
  have hkey := resetKey_of_joined hjoined
  have htracks := hkept.tracks visitor
  simp only [Tracks, Phase.standing, hphase] at htracks
  cases hclaiming : (state.visitors visitor).claiming with
  | false => rw [hclaiming] at htracks; exact htracks.elim
  | true =>
      simp only [hclaiming] at htracks
      have hclaims : Claims (resetWrites reports) visitor prior := htracks
      simp only [State.overdue, hphase, hkey, Option.isSome_eq_false_iff,
        Option.isNone_iff_eq_none] at htimely
      -- The claim is still the last write, so the rollback always wins.
      have hread : read state.store state.now (.reset flow) = some .used := by
        rw [← raw_of_fresh htimely, hkept.raw, hclaims.settledTo]
      simp only [State.land, hphase, State.compareAndSet, hkey,
        ExpiringStore.compareAndSet, hread, if_true] at hmove
      obtain ⟨rfl, rfl⟩ := Prod.mk.inj (Option.some.inj hmove)
      show Consistent flow expiry (state.moved visitor
        { state.visitors visitor with
          claiming := (state.visitors visitor).claiming,
          phase := .rolledBack } _) _
      apply hkept.setReset hgoing (by simp)
      · intro hstarted
        have hlast := hkept.started hstarted
        rw [hclaims.settledTo] at hlast
        cases hlast
      · exact fun other prior' hother => hother.unique hclaims
      · intro mark hmark hused
        obtain ⟨others, hothers, _⟩ := hclaims
        exact ⟨rfl, others, prior, hothers⟩
      · simp only [Tracks, Phase.standing, hclaiming]
        exact hclaims.undone

theorem Consistent.landSettling (hkept : Consistent flow expiry state reports)
    {visitor : ℕ} {outcome : Outcome} {later : State}
    (hphase : (state.visitors visitor).phase = .settling outcome)
    (hmove : state.land visitor (state.visitors visitor) =
      some (later, emitted)) :
    Consistent flow expiry later (reports ++ emitted) := by
  have hgoing : (state.visitors visitor).phase.going = true := by
    rw [hphase]
    rfl
  have hjoined := hkept.joined visitor (by rw [hphase]; exact nofun)
  have hkey := resetKey_of_joined hjoined
  have htracks := hkept.tracks visitor
  simp only [Tracks, Phase.standing, hphase] at htracks
  simp only [State.land, hphase, State.compareAndSet, hkey] at hmove
  cases compareAndSet_cases state.store state.now (.reset flow)
    (some Mark.used) (some outcome.mark)
    (some (state.now + flowResetExpiry * 1000)) with
  | inl hwon =>
      rw [hwon.2, if_pos rfl] at hmove
      obtain ⟨rfl, rfl⟩ := Prod.mk.inj (Option.some.inj hmove)
      have hlast : settledTo (resetWrites reports) = some .used :=
        hkept.raw.symm.trans (raw_of_read hwon.1)
      have hstarted : ¬ Started (resetWrites reports) := by
        intro hstarted
        rw [hkept.started hstarted] at hlast
        cases hlast
      show Consistent flow expiry (state.moved visitor
        { state.visitors visitor with
          claiming := (state.visitors visitor).claiming,
          phase := .settled outcome } _) _
      cases hclaiming : (state.visitors visitor).claiming with
      | false =>
          rw [hclaiming] at htracks
          exact absurd htracks.2 hstarted
      | true =>
          simp only [hclaiming] at htracks
          obtain ⟨prior, hclaims⟩ := htracks
          apply hkept.setReset hgoing (by simp) hstarted
          · exact fun other prior' hother => hother.unique hclaims
          · intro mark hmark hused
            obtain ⟨others, hothers, _⟩ := hclaims
            exact ⟨rfl, others, prior, hothers⟩
          · exact trivial
  | inr hlost =>
      rw [hlost.2, if_neg Bool.false_ne_true] at hmove
      obtain ⟨rfl, rfl⟩ := Prod.mk.inj (Option.some.inj hmove)
      show Consistent flow expiry
        (state.setPhase visitor (.settled outcome)) _
      apply hkept.setPhase hgoing (by simp)
      · simp only [Tracks, Phase.standing]
        cases hclaiming : (state.visitors visitor).claiming with
        | false => rw [hclaiming] at htracks; exact htracks
        | true => exact trivial
      · exact .silent

theorem Consistent.landMarking (hkept : Consistent flow expiry state reports)
    {visitor : ℕ} {outcome : Outcome} {ttlSeconds : ℕ} {later : State}
    (hphase : (state.visitors visitor).phase = .marking outcome ttlSeconds)
    (hmove : state.land visitor (state.visitors visitor) =
      some (later, emitted)) :
    Consistent flow expiry later (reports ++ emitted) := by
  have hgoing : (state.visitors visitor).phase.going = true := by
    rw [hphase]
    rfl
  have htracks : ∀ written, Tracks (resetWrites reports) visitor
      { state.visitors visitor with phase := .marked written } := by
    intro written
    apply (hkept.tracks visitor).turn hphase
    intro claiming
    cases claiming <;> rfl
  set nonce := (state.visitors visitor).handoff.nonce with hnonce
  simp only [State.land, hphase, State.compareAndSet, ← hnonce] at hmove
  cases compareAndSet_cases state.store state.now (.used nonce)
    (some Mark.used) (some outcome.mark)
    (some (state.now + ttlSeconds * 1000)) with
  | inl hwon =>
      rw [hwon.2] at hmove
      obtain ⟨rfl, rfl⟩ := Prod.mk.inj (Option.some.inj hmove)
      show Consistent flow expiry (state.moved visitor
        { state.visitors visitor with phase := .marked true } _) _
      exact hkept.setUsed hgoing (by simp) (htracks true) (Or.inl rfl)
  | inr hlost =>
      rw [hlost.2] at hmove
      obtain ⟨rfl, rfl⟩ := Prod.mk.inj (Option.some.inj hmove)
      show Consistent flow expiry
        (state.setPhase visitor (.marked false)) _
      exact hkept.setPhase hgoing (by simp) (htracks false) .silent

theorem Consistent.land (hkept : Consistent flow expiry state reports)
    {visitor : ℕ} {later : State}
    (htimely : state.overdue (.land visitor) = false)
    (hmove : state.land visitor (state.visitors visitor) =
      some (later, emitted)) :
    Consistent flow expiry later (reports ++ emitted) := by
  cases hphase : (state.visitors visitor).phase with
  | reading =>
      simp only [State.land, hphase, Option.some.injEq, Prod.mk.injEq] at hmove
      obtain ⟨rfl, rfl⟩ := hmove
      have hjoined := hkept.joined visitor (by rw [hphase]; exact nofun)
      rw [resetKey_of_joined hjoined]
      have htracks := hkept.tracks visitor
      simp only [Tracks, Phase.standing, hphase] at htracks
      apply hkept.setPhase (by rw [hphase]; rfl) (by simp)
      · cases hclaiming : (state.visitors visitor).claiming with
        | true => rw [hclaiming] at htracks; exact htracks.elim
        | false =>
            rw [hclaiming] at htracks
            simp only [Tracks, Phase.standing, hclaiming]
            split
            case isTrue hread =>
              exact ⟨htracks,
                started_of_settledTo (hkept.raw.symm.trans (raw_of_read hread))⟩
            case isFalse => exact htracks
      · exact .silent
  | claimingReset prior => exact hkept.landReset hphase htimely hmove
  | claimingNonce prior ttlSeconds =>
      exact hkept.landNonce hphase htimely hmove
  | rollingBack prior => exact hkept.landRollback hphase htimely hmove
  | settling outcome => exact hkept.landSettling hphase hmove
  | marking outcome ttlSeconds => exact hkept.landMarking hphase hmove
  | _ => simp only [State.land, hphase, reduceCtorEq] at hmove

/-! ## A block reads what an operation answered -/

theorem Consistent.answer (hkept : Consistent flow expiry state reports)
    {visitor : ℕ} {answer : Answer}
    (hgoing : (state.visitors visitor).phase.going = true)
    (htracks : Tracks (resetWrites reports) visitor
      { state.visitors visitor with phase := .answered answer })
    (hreset : answer = .reset → ¬ Started (resetWrites reports)) :
    Consistent flow expiry (state.answer visitor answer).1
      (reports ++ (state.answer visitor answer).2) := by
  apply hkept.setPhase hgoing (by simp) htracks
  apply Quiet.answered
  · rfl
  · exact hreset

theorem Consistent.proceedRead (hkept : Consistent flow expiry state reports)
    {visitor : ℕ} {prior : Option Mark} {later : State}
    (hphase : (state.visitors visitor).phase = .read prior)
    (hmove : state.proceed visitor (state.visitors visitor) =
      some (later, emitted)) :
    Consistent flow expiry later (reports ++ emitted) := by
  have hgoing : (state.visitors visitor).phase.going = true := by
    rw [hphase]
    rfl
  have htracks := hkept.tracks visitor
  simp only [Tracks, Phase.standing, hphase] at htracks
  cases hclaiming : (state.visitors visitor).claiming with
  | true => rw [hclaiming] at htracks; exact htracks.elim
  | false =>
      simp only [hclaiming] at htracks
      have huntouched : Untouched (resetWrites reports) visitor := by
        split at htracks
        case isTrue => exact htracks.1
        case isFalse => exact htracks
      simp only [State.proceed, hphase] at hmove
      split at hmove
      case isTrue =>
        obtain ⟨rfl, rfl⟩ := Prod.mk.inj (Option.some.inj hmove)
        apply hkept.answer hgoing
        · simp only [Tracks, hclaiming]
          exact huntouched
        · exact nofun
      case isFalse hused =>
        split at hmove
        case isTrue hprior =>
          obtain ⟨rfl, rfl⟩ := Prod.mk.inj (Option.some.inj hmove)
          rw [if_pos hprior] at htracks
          apply hkept.setPhase hgoing (by simp)
          · simp only [Tracks, hclaiming]
            exact htracks
          · exact .silent
        case isFalse hprior =>
          obtain ⟨rfl, rfl⟩ := Prod.mk.inj (Option.some.inj hmove)
          apply hkept.setPhase hgoing (by simp)
          · simp only [Tracks, hclaiming, Phase.standing, hused, hprior,
              or_self, if_false]
            exact huntouched
          · exact .silent

theorem Consistent.proceedReset (hkept : Consistent flow expiry state reports)
    {visitor : ℕ} {prior : Option Mark} {won : Bool} {later : State}
    (hphase : (state.visitors visitor).phase = .claimedReset prior won)
    (hmove : state.proceed visitor (state.visitors visitor) =
      some (later, emitted)) :
    Consistent flow expiry later (reports ++ emitted) := by
  have hgoing : (state.visitors visitor).phase.going = true := by
    rw [hphase]
    rfl
  have htracks := hkept.tracks visitor
  simp only [Tracks, Phase.standing, hphase] at htracks
  simp only [State.proceed, hphase] at hmove
  cases hclaiming : (state.visitors visitor).claiming with
  | true =>
      cases won with
      | false => simp only [hclaiming] at htracks; exact htracks.elim
      | true =>
          simp only [hclaiming] at htracks
          obtain ⟨rfl, rfl⟩ := Prod.mk.inj (Option.some.inj hmove)
          apply hkept.setPhase hgoing (by simp)
          · simp only [Tracks, hclaiming]
            exact htracks
          · exact .silent
  | false =>
      cases won with
      | true => simp only [hclaiming] at htracks; exact htracks.elim
      | false =>
          simp only [hclaiming] at htracks
          obtain ⟨rfl, rfl⟩ := Prod.mk.inj (Option.some.inj hmove)
          apply hkept.answer hgoing
          · simp only [Tracks, hclaiming]
            exact htracks
          · exact nofun

theorem Consistent.proceedNonce (hkept : Consistent flow expiry state reports)
    {visitor : ℕ} {prior : Option Mark} {won : Bool} {later : State}
    (hphase : (state.visitors visitor).phase = .claimedNonce prior won)
    (hmove : state.proceed visitor (state.visitors visitor) =
      some (later, emitted)) :
    Consistent flow expiry later (reports ++ emitted) := by
  have hgoing : (state.visitors visitor).phase.going = true := by
    rw [hphase]
    rfl
  have htracks := hkept.tracks visitor
  simp only [Tracks, Phase.standing, hphase] at htracks
  cases hclaiming : (state.visitors visitor).claiming with
  | true =>
      simp only [hclaiming] at htracks
      have hclaims : Claims (resetWrites reports) visitor prior := htracks
      simp only [State.proceed, hphase, hclaiming, if_true] at hmove
      split at hmove
      case isTrue =>
        obtain ⟨rfl, rfl⟩ := Prod.mk.inj (Option.some.inj hmove)
        apply hkept.answer hgoing
        · simp only [Tracks, hclaiming]
          exact ⟨prior, hclaims⟩
        · intro _ hstarted
          have hlast := hkept.started hstarted
          rw [hclaims.settledTo] at hlast
          cases hlast
      case isFalse =>
        obtain ⟨rfl, rfl⟩ := Prod.mk.inj (Option.some.inj hmove)
        apply hkept.setPhase hgoing (by simp)
        · simp only [Tracks, hclaiming]
          exact hclaims
        · exact .silent
  | false =>
      simp only [hclaiming] at htracks
      simp only [State.proceed, hphase, hclaiming, Bool.false_eq_true, if_false]
        at hmove
      split at hmove
      case isTrue =>
        obtain ⟨rfl, rfl⟩ := Prod.mk.inj (Option.some.inj hmove)
        apply hkept.answer hgoing
        · simp only [Tracks, hclaiming]
          exact htracks
        · exact nofun
      case isFalse =>
        obtain ⟨rfl, rfl⟩ := Prod.mk.inj (Option.some.inj hmove)
        apply hkept.answer hgoing
        · simp only [Tracks, hclaiming]
          exact htracks.1
        · exact nofun

/-- `mark` moves a visitor past its flow's record, or ends it. -/
theorem Consistent.mark (hkept : Consistent flow expiry state reports)
    {visitor : ℕ} {before : Phase} (outcome : Outcome)
    (hphase : (state.visitors visitor).phase = before)
    (hgoing : before.going = true)
    (hstands : ∀ claiming, before.standing claiming =
      if claiming then .past else .follows) (handoff : Handoff) :
    Consistent flow expiry (state.mark visitor handoff outcome)
      (reports ++ []) := by
  simp only [State.mark]
  have htracks : ∀ phase : Phase, (∀ claiming, phase.standing claiming =
      if claiming then .past else .follows) → Tracks (resetWrites reports) visitor
        { state.visitors visitor with phase := phase } := by
    intro phase hsame
    apply (hkept.tracks visitor).turn hphase
    exact fun claiming => (hsame claiming).trans (hstands claiming).symm
  split
  case isTrue =>
    apply hkept.setPhase (hphase ▸ hgoing) (by simp)
    · apply htracks
      intro claiming
      cases claiming <;> rfl
    · exact .silent
  case isFalse =>
    apply hkept.setPhase (hphase ▸ hgoing) (by simp)
    · apply htracks
      intro claiming
      cases claiming <;> rfl
    · exact .silent

theorem Consistent.proceed (hkept : Consistent flow expiry state reports)
    {visitor : ℕ} {later : State}
    (hmove : state.proceed visitor (state.visitors visitor) =
      some (later, emitted)) :
    Consistent flow expiry later (reports ++ emitted) := by
  cases hphase : (state.visitors visitor).phase with
  | read prior => exact hkept.proceedRead hphase hmove
  | claimedReset prior won => exact hkept.proceedReset hphase hmove
  | claimedNonce prior won => exact hkept.proceedNonce hphase hmove
  | rolledBack =>
      simp only [State.proceed, hphase, Option.some.injEq] at hmove
      obtain ⟨rfl, rfl⟩ := Prod.mk.inj hmove
      have htracks := hkept.tracks visitor
      simp only [Tracks, Phase.standing, hphase] at htracks
      apply hkept.answer (by rw [hphase]; rfl)
      · cases hclaiming : (state.visitors visitor).claiming with
        | true =>
            simp only [hclaiming] at htracks
            simp only [Tracks, hclaiming]
            exact htracks
        | false => simp only [hclaiming] at htracks; exact htracks.elim
      · exact nofun
  | settled outcome =>
      simp only [State.proceed, hphase, Option.some.injEq, Prod.mk.injEq] at hmove
      obtain ⟨rfl, rfl⟩ := hmove
      apply hkept.mark outcome hphase rfl
      intro claiming
      cases claiming <;> rfl
  | marked written =>
      simp only [State.proceed, hphase, Option.some.injEq, Prod.mk.injEq] at hmove
      obtain ⟨rfl, rfl⟩ := hmove
      apply hkept.setPhase (by rw [hphase]; rfl) (by simp)
      · apply (hkept.tracks visitor).turn hphase
        intro claiming
        cases claiming <;> rfl
      · exact .silent
  | _ => simp only [State.proceed, hphase, reduceCtorEq] at hmove

theorem Consistent.finish (hkept : Consistent flow expiry state reports)
    {visitor : ℕ} {outcome : Outcome} {later : State}
    (hmove : state.finish visitor (state.visitors visitor) outcome =
      some (later, emitted)) :
    Consistent flow expiry later (reports ++ emitted) := by
  simp only [State.finish] at hmove
  split at hmove
  case isFalse => cases hmove
  case isTrue hanswered =>
    have hpresent : (state.visitors visitor).phase ≠ .absent := by
      intro habsent
      rw [habsent] at hanswered
      simp at hanswered
    have hforce : (state.visitors visitor).handoff.force = true := by
      have hjoined := hkept.joined visitor hpresent
      simp only [Handoff.ofFlow, Bool.and_eq_true] at hjoined
      exact hjoined.1.1
    rw [if_pos hforce] at hmove
    obtain ⟨rfl, rfl⟩ := Prod.mk.inj (Option.some.inj hmove)
    have htracks := hkept.tracks visitor
    simp only [Tracks, Phase.standing] at htracks
    cases hanswered with
    | inl hreset =>
        rw [hreset] at htracks
        apply hkept.setPhase (by rw [hreset]; rfl) (by simp)
        · cases hclaiming : (state.visitors visitor).claiming with
          | true =>
              simp only [hclaiming] at htracks
              simp only [Tracks, hclaiming]
              exact htracks
          | false => simp only [hclaiming] at htracks; exact htracks.elim
        · exact .silent
    | inr hcontinue =>
        rw [hcontinue] at htracks
        apply hkept.setPhase (by rw [hcontinue]; rfl) (by simp)
        · cases hclaiming : (state.visitors visitor).claiming with
          | true => simp only [hclaiming] at htracks; exact htracks.elim
          | false =>
              simp only [hclaiming] at htracks
              simp only [Tracks, hclaiming]
              exact htracks
        · exact .silent

theorem setPhase_arrived (state : State) (visitor : ℕ) (handoff : Handoff)
    (phase : Phase) :
    State.setPhase
        { state with
          visitors :=
            Function.update state.visitors visitor { handoff := handoff } }
        visitor phase =
      state.moved visitor { handoff := handoff, phase := phase } state.store := by
  simp only [State.setPhase, State.moved, Function.update_self,
    Function.update_idem]

theorem Consistent.arrive (hkept : Consistent flow expiry state reports)
    {visitor : ℕ} {handoff : Handoff}
    (habsent : (state.visitors visitor).phase = .absent)
    (hjoined : handoff.ofFlow flow expiry = true) :
    Consistent flow expiry (state.arrive visitor handoff).1
      (reports ++ (state.arrive visitor handoff).2) := by
  have hforce : handoff.force = true := by
    simp only [Handoff.ofFlow, Bool.and_eq_true] at hjoined
    exact hjoined.1.1
  have huntouched : Untouched (resetWrites reports) visitor := by
    have htracks := hkept.tracks visitor
    simp only [Tracks, Phase.standing, habsent] at htracks
    cases hclaiming : (state.visitors visitor).claiming with
    | true => rw [hclaiming] at htracks; exact htracks.elim
    | false => rw [hclaiming] at htracks; exact htracks
  have hmoves : ∀ phase : Phase, phase ≠ .absent → Moves flow expiry
      (state.visitors visitor) { handoff := handoff, phase := phase } := by
    intro phase hpresent
    constructor
    · exact hjoined
    · exact hpresent
    · exact fun hphase => absurd habsent hphase
    · rw [habsent]
      exact nofun
    · rw [habsent]
      exact nofun
  simp only [State.arrive, State.answer, setPhase_arrived, hforce, if_true]
  split
  case isTrue =>
    apply hkept.quiet (hmoves _ (by simp)) rfl (fun _ => id)
    · exact huntouched
    · exact .answered .refused rfl nofun
  case isFalse =>
    apply hkept.quiet (hmoves _ (by simp)) rfl (fun _ => id)
    · exact huntouched
    · exact .silent

theorem consistent_init
    (hinit : (visitors flow expiry opened).init state) :
    Consistent flow expiry state [] := by
  obtain ⟨hstore, hvisitors⟩ := hinit
  constructor
  · rw [hstore]
    rfl
  · exact fun visitor hpresent => absurd (hvisitors visitor).1 hpresent
  · intro visitor
    simp only [Tracks, (hvisitors visitor).1, (hvisitors visitor).2]
    exact fun _ hmem => by cases hmem
  · exact fun ⟨_, hmem, _⟩ => by cases hmem
  · intro earlier later visitor before after heq
    simp [resetWrites] at heq
  · exact fun _ hmem => by cases hmem
  · exact fun _ _ hmem => by cases hmem
  · exact fun _ _ hmem => by cases hmem
  · intro earlier later visitor heq _ hmem
    rw [(List.append_eq_nil_iff.mp heq.symm).2] at hmem
    cases hmem

theorem Consistent.step (hkept : Consistent flow expiry state reports)
    {event : Event} {later : State} (htimely : state.overdue event = false)
    (hmove : state.step flow expiry opened event = some (later, emitted)) :
    Consistent flow expiry later (reports ++ emitted) := by
  cases event with
  | tick elapsed =>
      obtain ⟨rfl, rfl⟩ := Prod.mk.inj (Option.some.inj hmove)
      rw [List.append_nil]
      exact ⟨hkept.raw, hkept.joined, hkept.tracks, hkept.started,
        hkept.settles, hkept.spent, hkept.links, hkept.answers, hkept.ordered⟩
  | arrive visitor handoff =>
      simp only [State.step] at hmove
      split at hmove
      case isFalse => cases hmove
      case isTrue hjoins =>
        have harrive := hkept.arrive hjoins.1 hjoins.2.1
        rw [Option.some.inj hmove] at harrive
        exact harrive
  | land visitor =>
      apply hkept.land htimely
      simp only [State.step] at hmove
      split at hmove
      case h_1 =>
        split at hmove
        case isTrue => exact hmove
        case isFalse => cases hmove
      case h_2 => exact hmove
  | proceed visitor => exact hkept.proceed hmove
  | finish visitor outcome => exact hkept.finish hmove

/-- A forced flow resets once, in every run where no compare-and-set of a claim
lands on a record that expired after it was written. -/
theorem forced_flow_resets_once (flow : JsString) (expiry : JsString → ℕ)
    (opened : ℕ) {state : State} {reports : List Report}
    (hrun : ((visitors flow expiry opened).restrict fun state event =>
      !state.overdue event).Run state reports) :
    ResetsOnce state reports := by
  apply Consistent.resetsOnce
  apply hrun.invariant (motive := Consistent flow expiry)
  · intro state hinit
    have hstart : (visitors flow expiry opened).init state := hinit
    exact consistent_init hstart
  · intro state outputs event later emitted hkept hmove
    obtain ⟨htimely, hmove⟩ := Machine.restrict_step hmove
    rw [Bool.not_eq_true'] at htimely
    exact hkept.step htimely hmove

/-! ## One flow -/

def initial : State where
  store _ := none
  visitors _ :=
    { handoff := { expiresAt := 0, nonce := [], force := false, flow := none } }
  now := 0

/-- The first link of the flow, open for fifteen minutes, and a later one. -/
def firstLink : Handoff where
  expiresAt := 900000
  nonce := [1]
  force := true
  flow := none

def laterLink : Handoff where
  expiresAt := 900000
  nonce := [2]
  force := true
  flow := some [1]

/-- A visitor claims the reset, its link, and records that OAuth started. -/
def claimAndStart (visitor : ℕ) (link : Handoff) : List Event :=
  [.arrive visitor link, .land visitor, .proceed visitor, .land visitor,
    .proceed visitor, .land visitor, .proceed visitor, .finish visitor .started,
    .land visitor, .proceed visitor]

def continueFlow (visitor : ℕ) (link : Handoff) : List Event :=
  [.arrive visitor link, .land visitor, .proceed visitor]

theorem initial_init :
    (visitors [1] (fun _ => 900000) 0).init initial :=
  ⟨fun _ => rfl, fun _ => ⟨rfl, rfl⟩⟩

theorem forced_flow_resets_once_two_links :
    ∃ state reports, Report.answered 0 .reset ∈ reports ∧
      Report.answered 1 .continue ∈ reports ∧ ResetsOnce state reports := by
  let machine := (visitors [1] (fun _ => 900000) 0).restrict fun state event =>
    !state.overdue event
  let events := claimAndStart 0 firstLink ++ continueFlow 1 laterLink ++
    [.land 1, .proceed 1]
  obtain ⟨⟨final, reports⟩, hexecute⟩ :
      ∃ result, machine.execute initial events = some result := ⟨_, rfl⟩
  have hrun := (Machine.Run.start initial_init : machine.Run initial []).execute
    events hexecute
  have hreports : reports = [.wrote 0 none (some .used), .claimed 0,
      .answered 0 .reset, .wrote 0 (some .used) (some .started), .claimed 1,
      .answered 1 .continue] :=
    (congrArg Prod.snd (Option.some.inj hexecute)).symm.trans rfl
  refine ⟨final, reports, ?_, ?_, forced_flow_resets_once _ _ _ hrun⟩
  · rw [hreports]
    decide
  · rw [hreports]
    decide

/-- The second visitor of a link finds it open for one more millisecond; its
claim lands when the first visitor's claim has expired together with the link. -/
theorem link_claimed_twice :
    ¬ ∀ (flow : JsString) (expiry : JsString → ℕ) (opened : ℕ) (state : State)
      (reports : List Report), (visitors flow expiry opened).Run state reports →
        ResetsOnce state reports := by
  intro hclaim
  let machine := visitors [1] (fun _ => 900000) 0
  let events := claimAndStart 0 firstLink ++ [.tick 899999] ++
    continueFlow 1 firstLink ++ [.tick 1, .land 1]
  obtain ⟨⟨final, reports⟩, hexecute⟩ :
      ∃ result, machine.execute initial events = some result := ⟨_, rfl⟩
  have hrun := (Machine.Run.start initial_init : machine.Run initial []).execute
    events hexecute
  have hreports : reports = [.wrote 0 none (some .used), .claimed 0,
      .answered 0 .reset, .wrote 0 (some .used) (some .started), .claimed 1] :=
    (congrArg Prod.snd (Option.some.inj hexecute)).symm.trans rfl
  have hnonce : ∀ visitor, visitor < 2 →
      (final.visitors visitor).handoff.nonce = [1] := by
    intro visitor hvisitor
    have hfinal := congrArg (fun result => result.1.visitors visitor)
      (Option.some.inj hexecute)
    interval_cases visitor
    · exact congrArg (fun current => current.handoff.nonce) hfinal.symm
    · exact congrArg (fun current => current.handoff.nonce) hfinal.symm
  have honce := hclaim _ _ _ final reports hrun
  have hsame : (0 : ℕ) = 1 := by
    apply honce.links 0 1
    · rw [hreports]
      decide
    · rw [hreports]
      decide
    · rw [hnonce 0 (by decide), hnonce 1 (by decide)]
  cases hsame

end Connecta.ConnectStart
