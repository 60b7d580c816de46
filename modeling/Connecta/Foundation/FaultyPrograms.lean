import Mathlib.Data.List.Basic

/-!
# Programs that may fail beside a state

A program changes a state and answers or fails; what it did to the state stays after a failure.
A claim about the answers of a program needs an invariant of the states, and may leave out the
runs that end with a flag raised: a flag that is raised stays so.
-/

namespace Connecta.Foundation

abbrev Faulty (Fault State : Type) := ExceptT Fault (StateM State)

namespace Faulty

variable {Fault State Answer Next : Type}

/-- A run from a state: what comes of it, and the state it leaves. -/
def result (program : Faulty Fault State Answer) (state : State) : Except Fault Answer × State :=
  program.run.run state

/-- A run that answers. -/
def Runs (program : Faulty Fault State Answer) (state : State) (answer : Answer)
    (after : State) : Prop :=
  program.result state = (.ok answer, after)

theorem result_pure (answer : Answer) (state : State) :
    (pure answer : Faulty Fault State Answer).result state = (.ok answer, state) := rfl

theorem result_bind (program : Faulty Fault State Answer)
    (next : Answer → Faulty Fault State Next) (state : State) :
    (program >>= next).result state =
      match program.result state with
      | (.ok answer, middle) => (next answer).result middle
      | (.error fault, middle) => (.error fault, middle) := by
  change (ExceptT.bindCont next (program.run.run state).1).run (program.run.run state).2 = _
  rw [result]
  rcases program.run.run state with ⟨_ | _, _⟩ <;> rfl

theorem runs_pure {answer other : Answer} {state after : State} :
    Runs (pure answer : Faulty Fault State Answer) state other after ↔
      answer = other ∧ state = after := by
  rw [Runs, result_pure, Prod.mk.injEq, Except.ok.injEq]

theorem runs_bind {program : Faulty Fault State Answer}
    {next : Answer → Faulty Fault State Next} {state after : State} {answer : Next} :
    Runs (program >>= next) state answer after ↔
      ∃ first middle, Runs program state first middle ∧ Runs (next first) middle answer after := by
  simp only [Runs, result_bind]
  rcases program.result state with ⟨fault | first, middle⟩
  · constructor
    · intro hfault
      cases (Prod.mk.inj hfault).1
    · rintro ⟨_, _, hfault, _⟩
      cases (Prod.mk.inj hfault).1
  · constructor
    · intro hnext
      exact ⟨first, middle, rfl, hnext⟩
    · rintro ⟨_, _, hfirst, hnext⟩
      obtain ⟨hanswer, rfl⟩ := Prod.mk.inj hfirst
      obtain rfl := Except.ok.inj hanswer
      exact hnext

theorem not_runs_throw {fault : Fault} {state after : State} {answer : Answer} :
    ¬Runs (throw fault : Faulty Fault State Answer) state answer after := by
  intro hrun
  cases (Prod.mk.inj hrun).1

theorem runs_get {state after answer : State} :
    Runs (get : Faulty Fault State State) state answer after ↔
      state = answer ∧ state = after := by
  change (Except.ok state, state) = (Except.ok answer, after) ↔ _
  rw [Prod.mk.injEq, Except.ok.injEq]

theorem runs_modify {change : State → State} {state after : State} {answer : Unit} :
    Runs (modify change : Faulty Fault State Unit) state answer after ↔
      change state = after := by
  change (Except.ok PUnit.unit, change state) = (Except.ok answer, after) ↔ _
  rw [Prod.mk.injEq]
  exact and_iff_right rfl

theorem result_tryCatch (program : Faulty Fault State Answer)
    (handler : Fault → Faulty Fault State Answer) (state : State) :
    (tryCatch program handler).result state =
      match program.result state with
      | (.ok answer, middle) => (.ok answer, middle)
      | (.error fault, middle) => (handler fault).result middle := by
  change ((match (program.run.run state).1 with
    | .ok answer => pure (Except.ok answer)
    | .error fault => (handler fault).run) : StateM State (Except Fault Answer)).run
      (program.run.run state).2 = _
  rw [result]
  rcases program.run.run state with ⟨_ | _, _⟩ <;> rfl

/-! ## Safety -/

section

variable (Raised Keeps : State → Prop)

/-- Where a run answers and ends with the flag down, the flag was down before it; and what the
states keep is kept and the answer is as it should be, where something else holds. -/
def Safe (pre : Prop) (program : Faulty Fault State Answer) (post : Answer → Prop) : Prop :=
  ∀ state answer after, Runs program state answer after → ¬Raised after →
    ¬Raised state ∧ (Keeps state → pre → Keeps after ∧ post answer)

variable {Raised Keeps} {pre : Prop} {program : Faulty Fault State Answer}
  {post : Answer → Prop}

theorem Safe.weaken (hsafe : Safe Raised Keeps pre program post) {pre' : Prop}
    {post' : Answer → Prop} (hpre : pre' → pre) (hpost : pre' → ∀ answer, post answer →
      post' answer) : Safe Raised Keeps pre' program post' := by
  intro state answer after hrun hdown
  obtain ⟨hbefore, hkeeps⟩ := hsafe state answer after hrun hdown
  refine ⟨hbefore, fun hstate hpre' => ?_⟩
  obtain ⟨hafter, hanswer⟩ := hkeeps hstate (hpre hpre')
  exact ⟨hafter, hpost hpre' answer hanswer⟩

theorem safe_pure {answer : Answer} (hpost : pre → post answer) :
    Safe Raised Keeps pre (pure answer : Faulty Fault State Answer) post := by
  intro state other after hrun hdown
  obtain ⟨rfl, rfl⟩ := runs_pure.mp hrun
  exact ⟨hdown, fun hstate hpre => ⟨hstate, hpost hpre⟩⟩

theorem safe_throw {fault : Fault} :
    Safe Raised Keeps pre (throw fault : Faulty Fault State Answer) post :=
  fun _ _ _ hrun => absurd hrun not_runs_throw

theorem Safe.bind {middle : Answer → Prop} (hfirst : Safe Raised Keeps pre program middle)
    {next : Answer → Faulty Fault State Next} {post : Next → Prop}
    (hnext : ∀ answer, Safe Raised Keeps (pre ∧ middle answer) (next answer) post) :
    Safe Raised Keeps pre (program >>= next) post := by
  intro state answer after hrun hdown
  obtain ⟨first, between, hfirstRun, hnextRun⟩ := runs_bind.mp hrun
  obtain ⟨hbetween, hkeepsNext⟩ := hnext first between answer after hnextRun hdown
  obtain ⟨hbefore, hkeepsFirst⟩ := hfirst state first between hfirstRun hbetween
  refine ⟨hbefore, fun hstate hpre => ?_⟩
  obtain ⟨hmiddle, hanswer⟩ := hkeepsFirst hstate hpre
  exact hkeepsNext hmiddle ⟨hpre, hanswer⟩

/-- A program that leaves alone what the flag and the states keep is safe, whatever it answers. -/
theorem safe_of_unchanged (hraised : ∀ state, Raised state → Raised (program.result state).2)
    (hkeeps : ∀ state, Keeps state → Keeps (program.result state).2)
    (hpost : ∀ state answer after, Runs program state answer after → pre → post answer) :
    Safe Raised Keeps pre program post := by
  intro state answer after hrun hdown
  have hafter : (program.result state).2 = after := congrArg Prod.snd hrun
  refine ⟨fun hbefore => hdown (hafter ▸ hraised state hbefore), fun hstate hpre => ?_⟩
  exact ⟨hafter ▸ hkeeps state hstate, hpost state answer after hrun hpre⟩

end

end Faulty

end Connecta.Foundation
