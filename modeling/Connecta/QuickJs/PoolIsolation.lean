import Connecta.QuickJs.Pool

/-!
# Runs stay apart

An active run belongs to one unreleased lease, sits on that lease's slot, and
was sent to the slot's current child.  Whatever ends a run clears it from the
slot before the child goes, so nothing a former child or a former holder does
finds a run to change.
-/

namespace Connecta.QuickJs

open Connecta.Runtime
open Connecta.Transition

namespace Pool

/-! ## What holds between blocks -/

def unreleased (pool : Pool) : List ℕ :=
  (List.range pool.nextLease).filter fun lease => !(pool.leases lease).released

/-- Everything that ties an active run to its slot, its child and its lease. -/
structure Active (pool : Pool) (slot run : ℕ) : Prop where
  child : (pool.slots slot).child = some (pool.runs run).child
  ready : (pool.children (pool.runs run).child).ready.outcome = some (.ok ())
  home : (pool.runs run).slot = slot
  unsettled : (pool.runs run).outcome.outcome = none
  lease : (pool.runs run).lease ∈ pool.unreleased
  leaseSlot : (pool.leases (pool.runs run).lease).slot = slot
  phase : (pool.leases (pool.runs run).lease).phase = .running run
  issued : run < pool.nextJobId

/-- The characters of a run's logs, one more for each separator between two. -/
def transcript (logs : List JsString) : ℕ :=
  (logs.map fun entry => entry.length + 1).sum

/-- The bounds on what a run accepts from its child. -/
structure Bounded (run : ActiveRun) : Prop where
  logChars : run.logChars ≤ maxExecuteLogChars + 1
  resultBytes : run.resultBytes ≤ maxQuickJsResultBytes
  logs : transcript run.logs ≤ run.logChars + 1 ∨
    (run.logChars = maxExecuteLogChars + 1 ∧
      transcript run.logs ≤ run.logChars + 1 + truncatedMark.length)

structure Sound (concurrency : ℕ) (pool : Pool) (reports : List Report) :
    Prop where
  slots : (pool.available ++ pool.unreleased.map fun lease =>
    (pool.leases lease).slot).Perm (List.range concurrency)
  active : ∀ slot run, (pool.slots slot).active = some run →
    Active pool slot run
  starting : ∀ lease ∈ pool.unreleased, ∀ child current,
    (pool.leases lease).phase = .starting child →
      (pool.slots (pool.leases lease).slot).child = some current →
        current = child
  unexecuted : ∀ lease ∈ pool.unreleased,
    (pool.leases lease).executed = false → (pool.leases lease).phase = .idle
  homes : ∀ slot child, (pool.slots slot).child = some child →
    (pool.children child).slot = slot ∧ child < pool.nextChild
  current : ∀ slot child, (pool.slots slot).child = some child →
    (pool.children child).retired = false
  fresh : ∀ run, pool.nextJobId ≤ run → (pool.runs run).outcome.outcome = none
  settled : ∀ run, reports.count (.settled run) =
    if (pool.runs run).outcome.outcome = none then 0 else 1
  started : ∀ child run, .started child run ∈ reports →
    run < pool.nextJobId ∧ (pool.runs run).child = child
  calls : ∀ call < pool.nextCall, (pool.calls call).run < pool.nextJobId ∧
    (pool.calls call).slot = (pool.runs (pool.calls call).run).slot ∧
    (pool.calls call).child = (pool.runs (pool.calls call).run).child
  bounded : ∀ run, Bounded (pool.runs run)

theorem mem_unreleased {pool : Pool} {lease : ℕ} :
    lease ∈ pool.unreleased ↔
      lease < pool.nextLease ∧ (pool.leases lease).released = false := by
  simp [unreleased]

variable {concurrency : ℕ} {pool : Pool} {reports : List Report}

/-- No two unreleased leases share a slot. -/
theorem Sound.lease_unique (hsound : Sound concurrency pool reports)
    {lease other : ℕ} (hlease : lease ∈ pool.unreleased)
    (hother : other ∈ pool.unreleased)
    (hslot : (pool.leases lease).slot = (pool.leases other).slot) :
    lease = other := by
  have hnodup : (pool.available ++ pool.unreleased.map fun lease =>
      (pool.leases lease).slot).Nodup :=
    hsound.slots.nodup_iff.mpr List.nodup_range
  exact List.inj_on_of_nodup_map (List.nodup_append.mp hnodup).2.1 hlease hother
    hslot

/-- A lease whose program is not running has no active run on its slot. -/
theorem Sound.idle_slot (hsound : Sound concurrency pool reports) {lease : ℕ}
    (hlease : lease ∈ pool.unreleased)
    (hphase : ∀ run, (pool.leases lease).phase ≠ .running run) :
    (pool.slots (pool.leases lease).slot).active = none := by
  rcases hactive : (pool.slots (pool.leases lease).slot).active with _ | run
  · rfl
  · have hrun := hsound.active _ _ hactive
    have hsame := hsound.lease_unique hrun.lease hlease hrun.leaseSlot
    have hrunning := hrun.phase
    rw [hsame] at hrunning
    exact absurd hrunning (hphase run)

/-- A child is current on one slot only. -/
theorem Sound.home_unique (hsound : Sound concurrency pool reports)
    {slot child : ℕ} (hslot : (pool.slots slot).child = some child) (other : ℕ)
    (hother : (pool.slots other).child = some child) : other = slot :=
  (hsound.homes other child hother).1.symm.trans (hsound.homes slot child hslot).1

/-- A program that has moved has been executed. -/
theorem Sound.executed (hsound : Sound concurrency pool reports) {lease : ℕ}
    (hlease : lease ∈ pool.unreleased)
    (hphase : (pool.leases lease).phase ≠ .idle) :
    (pool.leases lease).executed = true := by
  by_contra hexecuted
  exact hphase (hsound.unexecuted lease hlease (Bool.not_eq_true _ ▸ hexecuted))

/-- An active run's program is the one of its lease. -/
theorem Sound.active_lease (hsound : Sound concurrency pool reports)
    {lease slot run : ℕ} (hactive : (pool.slots slot).active = some run)
    (hlease : (pool.runs run).lease = lease) :
    (pool.leases lease).phase = .running run := by
  rw [← hlease]
  exact (hsound.active slot run hactive).phase

/-! ## What a block leaves alone -/

/-- What a run has received from its child. -/
def received (run : ActiveRun) : List JsString × ℕ × List JsString × ℕ :=
  (run.logs, run.logChars, run.resultChunks, run.resultBytes)

/-- Only the runs active on these slots may change, and no other becomes
active. -/
structure Untouched (slots : Set ℕ) (before after : Pool) : Prop where
  next_le : before.nextJobId ≤ after.nextJobId
  runs : ∀ run < before.nextJobId,
    (∀ slot ∈ slots, (before.slots slot).active ≠ some run) →
      after.runs run = before.runs run
  actives : ∀ run < before.nextJobId,
    (∀ slot ∈ slots, (before.slots slot).active ≠ some run) →
      ∀ slot ∈ slots, (after.slots slot).active ≠ some run

/-- A block that brings nothing from a child. -/
structure Effect (slots : Set ℕ) (before after : Pool) : Prop extends
    Untouched slots before after where
  calls : after.nextCall = before.nextCall
  received : ∀ run < before.nextJobId,
    received (after.runs run) = received (before.runs run)
  results : ∀ run < before.nextJobId, ∀ result,
    (after.runs run).outcome.outcome = some (.ok result) →
      (before.runs run).outcome.outcome = some (.ok result)

variable {slots : Set ℕ}

theorem Untouched.refl (pool : Pool) : Untouched slots pool pool :=
  ⟨le_rfl, fun _ _ _ => rfl, fun _ _ hactive => hactive⟩

theorem Untouched.trans {first second third : Pool}
    (hleft : Untouched slots first second)
    (hright : Untouched slots second third) : Untouched slots first third where
  next_le := hleft.next_le.trans hright.next_le
  runs run hrun hactive :=
    (hright.runs run (hrun.trans_le hleft.next_le)
      (hleft.actives run hrun hactive)).trans (hleft.runs run hrun hactive)
  actives run hrun hactive :=
    hright.actives run (hrun.trans_le hleft.next_le)
      (hleft.actives run hrun hactive)

theorem Effect.refl (pool : Pool) : Effect slots pool pool :=
  ⟨.refl pool, rfl, fun _ _ => rfl, fun _ _ _ => id⟩

theorem Effect.trans {first second third : Pool}
    (hleft : Effect slots first second) (hright : Effect slots second third) :
    Effect slots first third where
  toUntouched := hleft.toUntouched.trans hright.toUntouched
  calls := hright.calls.trans hleft.calls
  received run hrun := (hright.received run (hrun.trans_le hleft.next_le)).trans
    (hleft.received run hrun)
  results run hrun result hresult := hleft.results run hrun result
    (hright.results run (hrun.trans_le hleft.next_le) result hresult)

/-- Blocks that leave the runs alone and activate none. -/
theorem Effect.of_runs {before after : Pool} (hruns : after.runs = before.runs)
    (hnext : after.nextJobId = before.nextJobId)
    (hcalls : after.nextCall = before.nextCall)
    (hactives : ∀ slot run, (after.slots slot).active = some run →
      (before.slots slot).active = some run) : Effect slots before after where
  next_le := hnext.ge
  runs run _ _ := by rw [hruns]
  actives run _ hactive slot hslot hafter :=
    hactive slot hslot (hactives slot run hafter)
  calls := hcalls
  received run _ := by rw [hruns]
  results run _ result hresult := by rwa [hruns] at hresult

/-! ## Blocks that only keep books -/

/-- The leases, the runs and the host calls stay; a slot keeps its run and may
lose its child, and a settled readiness stays settled. -/
structure Quiet (before after : Pool) : Prop where
  available : after.available = before.available
  leases : after.leases = before.leases
  nextLease : after.nextLease = before.nextLease
  runs : after.runs = before.runs
  nextJobId : after.nextJobId = before.nextJobId
  calls : after.calls = before.calls
  nextCall : after.nextCall = before.nextCall
  nextChild : after.nextChild = before.nextChild
  active : ∀ slot, (after.slots slot).active = (before.slots slot).active
  child : ∀ slot child, (after.slots slot).child = some child →
    (before.slots slot).child = some child
  kept : ∀ slot run, (before.slots slot).active = some run →
    (after.slots slot).child = (before.slots slot).child
  home : ∀ child, (after.children child).slot = (before.children child).slot
  current : ∀ slot child, (after.slots slot).child = some child →
    (before.children child).retired = false →
      (after.children child).retired = false
  ready : ∀ child exit, (before.children child).ready.outcome = some exit →
    (after.children child).ready.outcome = some exit

theorem Quiet.refl (pool : Pool) : Quiet pool pool :=
  ⟨rfl, rfl, rfl, rfl, rfl, rfl, rfl, rfl, fun _ => rfl, fun _ _ => id,
    fun _ _ _ => rfl, fun _ => rfl, fun _ _ _ => id, fun _ _ => id⟩

theorem Quiet.trans {first second third : Pool} (hleft : Quiet first second)
    (hright : Quiet second third) : Quiet first third where
  available := hright.available.trans hleft.available
  leases := hright.leases.trans hleft.leases
  nextLease := hright.nextLease.trans hleft.nextLease
  runs := hright.runs.trans hleft.runs
  nextJobId := hright.nextJobId.trans hleft.nextJobId
  calls := hright.calls.trans hleft.calls
  nextCall := hright.nextCall.trans hleft.nextCall
  nextChild := hright.nextChild.trans hleft.nextChild
  active slot := (hright.active slot).trans (hleft.active slot)
  child slot child hchild := hleft.child slot child (hright.child slot child hchild)
  kept slot run hactive :=
    (hright.kept slot run ((hleft.active slot).trans hactive)).trans
      (hleft.kept slot run hactive)
  home child := (hright.home child).trans (hleft.home child)
  current slot child hchild hkept := hright.current slot child hchild
    (hleft.current slot child (hright.child slot child hchild) hkept)
  ready child exit hready := hright.ready child exit (hleft.ready child exit hready)

theorem Quiet.unreleased {before after : Pool} (hquiet : Quiet before after) :
    after.unreleased = before.unreleased := by
  rw [Pool.unreleased, hquiet.leases, hquiet.nextLease]
  rfl

theorem Quiet.effect {before after : Pool} (hquiet : Quiet before after) :
    Effect slots before after :=
  .of_runs hquiet.runs hquiet.nextJobId hquiet.nextCall fun slot run hactive => by
    rwa [hquiet.active] at hactive

theorem Sound.quiet {before after : Pool}
    (hsound : Sound concurrency before reports) (hquiet : Quiet before after) :
    Sound concurrency after reports where
  slots := by
    rw [hquiet.unreleased, hquiet.available, hquiet.leases]
    exact hsound.slots
  active slot run hactive := by
    rw [hquiet.active] at hactive
    have hrun := hsound.active slot run hactive
    refine ⟨?_, ?_, ?_, ?_, ?_, ?_, ?_, ?_⟩
    · rw [hquiet.kept slot run hactive, hquiet.runs]
      exact hrun.child
    · rw [hquiet.runs]
      exact hquiet.ready _ _ hrun.ready
    · rw [hquiet.runs]
      exact hrun.home
    · rw [hquiet.runs]
      exact hrun.unsettled
    · rw [hquiet.runs, hquiet.unreleased]
      exact hrun.lease
    · rw [hquiet.runs, hquiet.leases]
      exact hrun.leaseSlot
    · rw [hquiet.runs, hquiet.leases]
      exact hrun.phase
    · rw [hquiet.nextJobId]
      exact hrun.issued
  starting lease hlease child current hphase hcurrent := by
    rw [hquiet.unreleased] at hlease
    rw [hquiet.leases] at hphase hcurrent
    exact hsound.starting lease hlease child current hphase
      (hquiet.child _ _ hcurrent)
  unexecuted := by
    rw [hquiet.unreleased, hquiet.leases]
    exact hsound.unexecuted
  homes slot child hchild := by
    rw [hquiet.home, hquiet.nextChild]
    exact hsound.homes slot child (hquiet.child slot child hchild)
  current slot child hchild := hquiet.current slot child hchild
    (hsound.current slot child (hquiet.child slot child hchild))
  fresh run hrun := by
    rw [hquiet.nextJobId] at hrun
    rw [hquiet.runs]
    exact hsound.fresh run hrun
  settled run := by
    rw [hquiet.runs]
    exact hsound.settled run
  started child run hmem := by
    rw [hquiet.nextJobId, hquiet.runs]
    exact hsound.started child run hmem
  calls call hcall := by
    rw [hquiet.nextCall] at hcall
    rw [hquiet.calls, hquiet.runs, hquiet.nextJobId]
    exact hsound.calls call hcall
  bounded run := by
    rw [hquiet.runs]
    exact hsound.bounded run

/-- A slot's bookkeeping, its child and its run unchanged. -/
theorem quiet_setSlot (pool : Pool) (slot : ℕ) (value : ChildSlot)
    (hchild : value.child = (pool.slots slot).child)
    (hactive : value.active = (pool.slots slot).active) :
    Quiet pool (pool.setSlot slot value) := by
  refine ⟨rfl, rfl, rfl, rfl, rfl, rfl, rfl, rfl, fun other => ?_,
    fun other child hother => ?_, fun other run _ => ?_, fun _ => rfl,
    fun _ _ _ => id, fun _ _ => id⟩
  · by_cases hsame : other = slot
    · subst hsame
      simpa [setSlot] using hactive
    · simp [setSlot, hsame]
  · by_cases hsame : other = slot
    · subst hsame
      simpa [setSlot, hchild] using hother
    · simpa [setSlot, hsame] using hother
  · by_cases hsame : other = slot
    · subst hsame
      simpa [setSlot] using hchild
    · simp [setSlot, hsame]

/-- A child's bookkeeping; its readiness settles at most once. -/
theorem quiet_setChild (pool : Pool) (child : ℕ) (value : Child)
    (hslot : value.slot = (pool.children child).slot)
    (hcurrent : ∀ slot, (pool.slots slot).child = some child →
      (pool.children child).retired = false → value.retired = false)
    (hready : ∀ exit, (pool.children child).ready.outcome = some exit →
      value.ready.outcome = some exit) :
    Quiet pool (pool.setChild child value) := by
  refine ⟨rfl, rfl, rfl, rfl, rfl, rfl, rfl, rfl, fun _ => rfl, fun _ _ => id,
    fun _ _ _ => rfl, fun other => ?_, fun slot other hother hkept => ?_,
    fun other exit hother => ?_⟩
  · by_cases hsame : other = child
    · subst hsame
      simpa [setChild] using hslot
    · simp [setChild, hsame]
  · by_cases hsame : other = child
    · subst hsame
      simpa [setChild] using hcurrent slot hother hkept
    · simpa [setChild, hsame] using hkept
  · by_cases hsame : other = child
    · subst hsame
      simpa [setChild] using hready exit hother
    · simpa [setChild, hsame] using hother

theorem quiet_recordCrash (pool : Pool) (slot : ℕ) :
    Quiet pool (pool.recordCrash slot) := quiet_setSlot _ _ _ rfl rfl

theorem quiet_endStreak (pool : Pool) (slot : ℕ) :
    Quiet pool (pool.endStreak slot) := quiet_setSlot _ _ _ rfl rfl

/-- A child may go from a slot with no active run, or from another slot. -/
theorem quiet_retire (pool : Pool) (slot child : ℕ)
    (readyError : Option RunError)
    (hhome : ∀ other, (pool.slots other).child = some child → other = slot)
    (hidle : (pool.slots slot).child = some child →
      (pool.slots slot).active = none) :
    Quiet pool (pool.retire slot child readyError) := by
  have hdetached : Quiet pool (if (pool.slots slot).child = some child
      then pool.setSlot slot { pool.slots slot with child := none }
      else pool) := by
    split
    · rename_i hcurrent
      refine ⟨rfl, rfl, rfl, rfl, rfl, rfl, rfl, rfl, fun other => ?_,
        fun other found hother => ?_, fun other run hactive => ?_,
        fun _ => rfl, fun _ _ _ => id, fun _ _ => id⟩
      · by_cases hsame : other = slot
        · simp [setSlot, hsame]
        · simp [setSlot, hsame]
      · by_cases hsame : other = slot
        · simp [setSlot, hsame] at hother
        · simpa [setSlot, hsame] using hother
      · by_cases hsame : other = slot
        · subst hsame
          rw [hidle hcurrent] at hactive
          cases hactive
        · simp [setSlot, hsame]
    · exact .refl pool
  have hgone : ∀ other, ((if (pool.slots slot).child = some child
      then pool.setSlot slot { pool.slots slot with child := none }
      else pool).slots other).child ≠ some child := by
    intro other hother
    have hslot := hhome other (hdetached.child other child hother)
    subst hslot
    have hcurrent := hdetached.child other child hother
    simp [hcurrent, setSlot] at hother
  refine hdetached.trans (quiet_setChild _ _ _ rfl
    (fun other hother => absurd hother (hgone other)) fun exit hready => ?_)
  cases readyError with
  | none => exact hready
  | some error => exact Settlement.settle_outcome hready _

theorem Sound.quiet_recycle (hsound : Sound concurrency pool reports)
    {slot : ℕ} (hidle : (pool.slots slot).active = none) :
    Quiet pool (pool.recycle slot) := by
  unfold recycle
  split
  · exact .refl pool
  · rename_i child hchild
    exact quiet_retire _ _ _ _ (hsound.home_unique hchild) fun _ => hidle

/-- A child that has not reported ready has no run. -/
theorem Sound.idle_of_starting (hsound : Sound concurrency pool reports)
    {slot child : ℕ} (hchild : (pool.slots slot).child = some child)
    (hpending : (pool.children child).ready.outcome = none) :
    (pool.slots slot).active = none := by
  rcases hactive : (pool.slots slot).active with _ | run
  · rfl
  · have hrun := hsound.active slot run hactive
    have hsame := hrun.child
    rw [hchild, Option.some.injEq] at hsame
    have hready := hrun.ready
    rw [← hsame, hpending] at hready
    cases hready

theorem Sound.quiet_failChildStartup (hsound : Sound concurrency pool reports)
    (slot child : ℕ) (error : RunError) :
    Quiet pool (pool.failChildStartup slot child error) := by
  unfold failChildStartup
  split
  · rename_i hpending
    have hcrash := quiet_recordCrash pool slot
    have hcrashed := hsound.quiet hcrash
    refine hcrash.trans (quiet_retire _ _ _ _ (fun other hother => ?_)
      fun _ => ?_)
    · exact hsound.home_unique hpending.1 other (hcrash.child other child hother)
    · rw [hcrash.active]
      exact hsound.idle_of_starting hpending.1 hpending.2
  · exact .refl pool

/-! ## Runs end -/

@[simp]
theorem setRun_runs_self (pool : Pool) (run : ℕ) (value : ActiveRun) :
    (pool.setRun run value).runs run = value := by
  simp [setRun]

theorem setRun_runs_of_ne (pool : Pool) {run other : ℕ} (value : ActiveRun)
    (hother : other ≠ run) : (pool.setRun run value).runs other = pool.runs other := by
  simp [setRun, hother]

/-- A field the new run shares is the same in every run. -/
theorem setRun_same {Field : Type*} (field : ActiveRun → Field) {pool : Pool}
    {run : ℕ} {value : ActiveRun} (hvalue : field value = field (pool.runs run))
    (other : ℕ) :
    field ((pool.setRun run value).runs other) = field (pool.runs other) := by
  by_cases hother : other = run
  · subst hother
    rw [setRun_runs_self, hvalue]
  · rw [setRun_runs_of_ne pool value hother]

theorem Sound.settleActive (hsound : Sound concurrency pool reports)
    {slot run : ℕ} (hactive : (pool.slots slot).active = some run)
    (exit : RunExit) :
    Sound concurrency (pool.settleActive slot run exit).1
        (reports ++ (pool.settleActive slot run exit).2) ∧
      ((pool.settleActive slot run exit).1.slots slot).active = none := by
  have hrun := hsound.active slot run hactive
  have hempty : (pool.runs run).outcome = { outcome := none } := by
    cases hsettlement : (pool.runs run).outcome with
    | mk outcome =>
        have hunsettled := hrun.unsettled
        rw [hsettlement] at hunsettled
        exact congrArg Settlement.mk hunsettled
  have hreport : (pool.settleActive slot run exit).2 = [.settled run] := by
    simp [Pool.settleActive, hempty]
  set value : ActiveRun := { pool.runs run with
    providers := [], outcome := { outcome := some exit } } with hvalue
  have hpool : (pool.settleActive slot run exit).1 =
      (pool.setSlot slot { pool.slots slot with active := none }).setRun run
        value := by
    simp [Pool.settleActive, hempty, hvalue]
  rw [hreport, hpool]
  have hslots : ∀ other, other ≠ slot →
      ((pool.setSlot slot { pool.slots slot with active := none }).setRun run
        value).slots other = pool.slots other := fun other hother => by
    simp [setSlot, setRun, hother]
  have hslot : (((pool.setSlot slot { pool.slots slot with
      active := none }).setRun run value).slots slot) =
        { pool.slots slot with active := none } := by
    simp [setSlot, setRun]
  have hchild : ∀ other, (((pool.setSlot slot { pool.slots slot with
      active := none }).setRun run value).slots other).child =
        (pool.slots other).child := fun other => by
    by_cases hother : other = slot
    · rw [hother, hslot]
    · rw [hslots other hother]
  have hruns : ∀ other, other ≠ run →
      ((pool.setSlot slot { pool.slots slot with active := none }).setRun run
        value).runs other = pool.runs other := fun other hother =>
    setRun_runs_of_ne _ _ hother
  refine ⟨⟨hsound.slots, fun other another hother => ?_, fun lease hlease child
    current hphase hcurrent => ?_, hsound.unexecuted,
    fun other child hother => ?_, fun other child hother => ?_,
    fun other hother => ?_, fun other => ?_, fun child other hmem => ?_,
    fun call hcall => ?_, fun other => ?_⟩, by rw [hslot]⟩
  · have hne : other ≠ slot := by
      rintro rfl
      rw [hslot] at hother
      cases hother
    rw [hslots other hne] at hother
    have hanother := hsound.active other another hother
    have hdifferent : another ≠ run := by
      rintro rfl
      exact hne (hanother.home.symm.trans hrun.home)
    constructor
    · rw [hchild, hruns another hdifferent]
      exact hanother.child
    · rw [hruns another hdifferent]
      exact hanother.ready
    · rw [hruns another hdifferent]
      exact hanother.home
    · rw [hruns another hdifferent]
      exact hanother.unsettled
    · rw [hruns another hdifferent]
      exact hanother.lease
    · rw [hruns another hdifferent]
      exact hanother.leaseSlot
    · rw [hruns another hdifferent]
      exact hanother.phase
    · exact hanother.issued
  · rw [hchild] at hcurrent
    exact hsound.starting lease hlease child current hphase hcurrent
  · rw [hchild] at hother
    exact hsound.homes other child hother
  · rw [hchild] at hother
    exact hsound.current other child hother
  · have hdifferent : other ≠ run := by
      rintro rfl
      exact absurd hrun.issued (not_lt.mpr hother)
    rw [hruns other hdifferent]
    exact hsound.fresh other hother
  · rw [List.count_append, hsound.settled]
    by_cases hother : other = run
    · subst hother
      rw [setRun_runs_self, hrun.unsettled]
      simp [hvalue]
    · rw [hruns other hother]
      simp [Ne.symm hother]
  · have hold : .started child other ∈ reports := by simpa using hmem
    rw [setRun_same ActiveRun.child (by rfl)]
    exact hsound.started child other hold
  · rw [setRun_same ActiveRun.child (by rfl), setRun_same ActiveRun.slot (by rfl)]
    exact hsound.calls call hcall
  · by_cases hother : other = run
    · subst hother
      rw [setRun_runs_self]
      exact ⟨(hsound.bounded other).logChars, (hsound.bounded other).resultBytes,
        (hsound.bounded other).logs⟩
    · rw [hruns other hother]
      exact hsound.bounded other

theorem untouched_settleActive {slot run : ℕ}
    (hactive : (pool.slots slot).active = some run) (hslot : slot ∈ slots)
    (exit : RunExit) :
    Untouched slots pool (pool.settleActive slot run exit).1 where
  next_le := le_rfl
  runs other _ hidle := by
    have hother : other ≠ run := by
      rintro rfl
      exact hidle slot hslot hactive
    exact setRun_runs_of_ne _ _ hother
  actives other _ hidle another hanother := by
    by_cases hsame : another = slot
    · subst hsame
      simp [Pool.settleActive, setRun, setSlot]
    · have hkept := hidle another hanother
      simpa [Pool.settleActive, setRun, setSlot, hsame] using hkept

theorem effect_settleActive {slot run : ℕ}
    (hactive : (pool.slots slot).active = some run) (hslot : slot ∈ slots)
    (error : RunError) :
    Effect slots pool (pool.settleActive slot run (.error error)).1 where
  toUntouched := untouched_settleActive hactive hslot _
  calls := rfl
  received other _ := setRun_same received (by rfl) other
  results other _ result hresult := by
    by_cases hother : other = run
    · subst hother
      rcases hsettled : (pool.runs other).outcome.outcome with _ | exit
      · simp [Pool.settleActive, setRun, Settlement.settle, hsettled] at hresult
      · simpa [Pool.settleActive, setRun, Settlement.settle, hsettled]
          using hresult
    · rwa [Pool.settleActive, setRun_runs_of_ne _ _ hother] at hresult

theorem Sound.rejectActive (hsound : Sound concurrency pool reports) (slot : ℕ)
    (error : RunError) :
    Sound concurrency (pool.rejectActive slot error).1
        (reports ++ (pool.rejectActive slot error).2) ∧
      ((pool.rejectActive slot error).1.slots slot).active = none := by
  unfold Pool.rejectActive
  split
  · rename_i hidle
    rw [List.append_nil]
    exact ⟨hsound, hidle⟩
  · rename_i run hactive
    exact hsound.settleActive hactive _

theorem effect_rejectActive (slot : ℕ) (hslot : slot ∈ slots)
    (error : RunError) :
    Effect slots pool (pool.rejectActive slot error).1 := by
  unfold Pool.rejectActive
  split
  · exact .refl pool
  · rename_i run hactive
    exact effect_settleActive hactive hslot _

/-- Rejecting a run leaves every slot its child. -/
theorem rejectActive_child (pool : Pool) (slot : ℕ) (error : RunError)
    (other : ℕ) : ((pool.rejectActive slot error).1.slots other).child =
      (pool.slots other).child := by
  unfold Pool.rejectActive
  split
  · rfl
  · by_cases hother : other = slot
    · simp [Pool.settleActive, setRun, setSlot, hother]
    · simp [Pool.settleActive, setRun, setSlot, hother]

theorem Sound.rejectAndRecycle (hsound : Sound concurrency pool reports)
    (slot : ℕ) (error : RunError) :
    Sound concurrency (pool.rejectAndRecycle slot error).1
        (reports ++ (pool.rejectAndRecycle slot error).2) ∧
      ((pool.rejectAndRecycle slot error).1.slots slot).active = none := by
  obtain ⟨hrejected, hidle⟩ := hsound.rejectActive slot error
  have hquiet := hrejected.quiet_recycle hidle
  exact ⟨hrejected.quiet hquiet, (hquiet.active slot).trans hidle⟩

theorem effect_rejectAndRecycle (hsound : Sound concurrency pool reports)
    (slot : ℕ) (hslot : slot ∈ slots) (error : RunError) :
    Effect slots pool (pool.rejectAndRecycle slot error).1 := by
  obtain ⟨hrejected, hidle⟩ := hsound.rejectActive slot error
  exact (effect_rejectActive slot hslot error).trans
    (hrejected.quiet_recycle hidle).effect

theorem Sound.stopSlot (hsound : Sound concurrency pool reports) (slot : ℕ) :
    Sound concurrency (pool.stopSlot slot).1
      (reports ++ (pool.stopSlot slot).2) := by
  unfold Pool.stopSlot
  split
  · rwa [List.append_nil]
  · rename_i child hchild
    obtain ⟨hrejected, hidle⟩ := hsound.rejectActive slot shuttingDown
    exact hrejected.quiet (quiet_retire _ slot child (some shuttingDown)
      (hrejected.home_unique (rejectActive_child pool slot _ slot ▸ hchild))
      fun _ => hidle)

theorem effect_stopSlot (hsound : Sound concurrency pool reports) (slot : ℕ)
    (hslot : slot ∈ slots) : Effect slots pool (pool.stopSlot slot).1 := by
  unfold Pool.stopSlot
  split
  · exact .refl pool
  · rename_i child hchild
    obtain ⟨hrejected, hidle⟩ := hsound.rejectActive slot shuttingDown
    exact (effect_rejectActive slot hslot shuttingDown).trans
      (quiet_retire _ slot child (some shuttingDown)
        (hrejected.home_unique (rejectActive_child pool slot _ slot ▸ hchild))
        fun _ => hidle).effect

theorem Sound.endWith (hsound : Sound concurrency pool reports) (run : ℕ)
    (error : RunError) :
    Sound concurrency (pool.endWith run error).1
      (reports ++ (pool.endWith run error).2) := by
  unfold Pool.endWith
  dsimp only
  split
  · exact (hsound.rejectAndRecycle _ error).1
  · rwa [List.append_nil]

theorem effect_endWith (hsound : Sound concurrency pool reports) (run : ℕ)
    (error : RunError) : Effect Set.univ pool (pool.endWith run error).1 := by
  unfold Pool.endWith
  dsimp only
  split
  · exact effect_rejectAndRecycle hsound _ (Set.mem_univ _) error
  · exact .refl pool

/-- Where a run was not or is no longer active, it is not afterwards. -/
theorem endWith_idle (hsound : Sound concurrency pool reports) (run : ℕ)
    (error : RunError) (slot : ℕ) :
    ((pool.endWith run error).1.slots slot).active ≠ some run := by
  intro hactive
  unfold Pool.endWith at hactive
  dsimp only at hactive
  split at hactive
  · rename_i hrunning
    obtain ⟨hlater, hidle⟩ := hsound.rejectAndRecycle (pool.runs run).slot error
    have hhome := (hlater.active slot run hactive).home
    have hkept : ((pool.rejectAndRecycle (pool.runs run).slot error).1.runs
        run).slot = (pool.runs run).slot := by
      have hruns : (pool.rejectAndRecycle (pool.runs run).slot error).1.runs =
          (pool.rejectActive (pool.runs run).slot error).1.runs :=
        ((hsound.rejectActive _ error).1.quiet_recycle
          (hsound.rejectActive _ error).2).runs
      rw [hruns, Pool.rejectActive, hrunning]
      exact setRun_same ActiveRun.slot (by rfl) run
    rw [← hhome, hkept, hidle] at hactive
    cases hactive
  · rename_i hidle
    exact hidle ((hsound.active slot run hactive).home ▸ hactive)

/-! ## Programs move on -/

@[simp]
theorem setLease_leases_self (pool : Pool) (lease : ℕ) (value : Lease) :
    (pool.setLease lease value).leases lease = value := by
  simp [setLease]

theorem setLease_leases_of_ne (pool : Pool) {lease other : ℕ} (value : Lease)
    (hother : other ≠ lease) :
    (pool.setLease lease value).leases other = pool.leases other := by
  simp [setLease, hother]

/-- A field the new lease shares is the same in every lease. -/
theorem setLease_same {Field : Type*} (field : Lease → Field) {pool : Pool}
    {lease : ℕ} {value : Lease} (hvalue : field value = field (pool.leases lease))
    (other : ℕ) :
    field ((pool.setLease lease value).leases other) = field (pool.leases other) := by
  by_cases hother : other = lease
  · subst hother
    rw [setLease_leases_self, hvalue]
  · rw [setLease_leases_of_ne pool value hother]

theorem setLease_unreleased {lease : ℕ} {value : Lease}
    (hreleased : value.released = (pool.leases lease).released) :
    (pool.setLease lease value).unreleased = pool.unreleased := by
  unfold Pool.unreleased
  refine List.filter_congr fun other _ => ?_
  rw [setLease_same Lease.released hreleased]

theorem effect_setLease (pool : Pool) (lease : ℕ) (value : Lease) :
    Effect slots pool (pool.setLease lease value) :=
  .of_runs rfl rfl rfl fun _ _ => id

/-- A program moves on while no active run hangs on where it was. -/
theorem Sound.setLease (hsound : Sound concurrency pool reports) {lease : ℕ}
    {value : Lease} (hslot : value.slot = (pool.leases lease).slot)
    (hreleased : value.released = (pool.leases lease).released)
    (hphase : ∀ slot run, (pool.slots slot).active = some run →
      (pool.runs run).lease = lease → value.phase = .running run)
    (hstarting : lease ∈ pool.unreleased → ∀ child current,
      value.phase = .starting child →
        (pool.slots (pool.leases lease).slot).child = some current →
          current = child)
    (hexecuted : lease ∈ pool.unreleased → value.executed = false →
      value.phase = .idle) :
    Sound concurrency (pool.setLease lease value) reports where
  slots := by
    rw [setLease_unreleased hreleased]
    have hsame : ∀ other, ((pool.setLease lease value).leases other).slot =
        (pool.leases other).slot := setLease_same Lease.slot hslot
    simp only [hsame]
    exact hsound.slots
  active slot run hactive := by
    have hrun := hsound.active slot run hactive
    refine ⟨hrun.child, hrun.ready, hrun.home, hrun.unsettled, ?_, ?_, ?_,
      hrun.issued⟩
    · rw [setLease_unreleased hreleased]
      exact hrun.lease
    · rw [setLease_same Lease.slot hslot]
      exact hrun.leaseSlot
    · by_cases hlease : (pool.runs run).lease = lease
      · change ((pool.setLease lease value).leases (pool.runs run).lease).phase = _
        rw [hlease, setLease_leases_self]
        exact hphase slot run hactive hlease
      · change ((pool.setLease lease value).leases (pool.runs run).lease).phase = _
        rw [setLease_leases_of_ne pool value hlease]
        exact hrun.phase
  starting other hother child current hwaiting hcurrent := by
    rw [setLease_unreleased hreleased] at hother
    rw [setLease_same Lease.slot hslot] at hcurrent
    by_cases hsame : other = lease
    · subst hsame
      rw [setLease_leases_self] at hwaiting
      exact hstarting hother child current hwaiting hcurrent
    · rw [setLease_leases_of_ne pool value hsame] at hwaiting
      exact hsound.starting other hother child current hwaiting hcurrent
  unexecuted other hother hfalse := by
    rw [setLease_unreleased hreleased] at hother
    by_cases hsame : other = lease
    · subst hsame
      rw [setLease_leases_self] at hfalse ⊢
      exact hexecuted hother hfalse
    · rw [setLease_leases_of_ne pool value hsame] at hfalse ⊢
      exact hsound.unexecuted other hother hfalse
  homes := hsound.homes
  current := hsound.current
  fresh := hsound.fresh
  settled := hsound.settled
  started := hsound.started
  calls := hsound.calls
  bounded := hsound.bounded

/-- A program ends once its run is no longer active. -/
theorem Sound.finish (hsound : Sound concurrency pool reports) {lease : ℕ}
    (hexecuted : (pool.leases lease).executed = true)
    (hidle : ∀ slot run, (pool.slots slot).active = some run →
      (pool.runs run).lease ≠ lease) (exit : RunExit) :
    Sound concurrency (pool.finish lease exit) reports :=
  hsound.setLease rfl rfl
    (fun slot run hactive hlease => absurd hlease (hidle slot run hactive))
    (fun _ _ _ hphase => by cases hphase)
    fun _ hfalse => by rw [hexecuted] at hfalse; cases hfalse

/-- The premise of `Sound.finish` for a program whose run is not active. -/
theorem Sound.no_run (hsound : Sound concurrency pool reports) {lease : ℕ}
    (hphase : ∀ run, (pool.leases lease).phase = .running run →
      ∀ slot, (pool.slots slot).active ≠ some run) :
    ∀ slot run, (pool.slots slot).active = some run →
      (pool.runs run).lease ≠ lease := fun slot run hactive hlease =>
  hphase run (hsound.active_lease hactive hlease) slot hactive

/-! ## Leases come and go -/

theorem Sound.acquire (hsound : Sound concurrency pool reports) :
    Sound concurrency pool.acquire reports := by
  unfold Pool.acquire
  split
  · exact hsound
  · rename_i slot rest havailable
    set later : Pool := { pool.setLease pool.nextLease { slot := slot } with
      available := rest, nextLease := pool.nextLease + 1 } with hlater
    have hold : ∀ lease ∈ pool.unreleased,
        later.leases lease = pool.leases lease := fun lease hlease =>
      setLease_leases_of_ne pool _ (mem_unreleased.mp hlease).1.ne
    have hnew : later.leases pool.nextLease = { slot := slot } :=
      setLease_leases_self pool _ _
    have hunreleased : later.unreleased = pool.unreleased ++ [pool.nextLease] := by
      unfold Pool.unreleased
      rw [show later.nextLease = pool.nextLease + 1 from rfl, List.range_succ,
        List.filter_append]
      congr 1
      · refine List.filter_congr fun lease hlease => ?_
        rw [show later.leases lease = pool.leases lease from
          setLease_leases_of_ne pool _ (List.mem_range.mp hlease).ne]
      · simp [hnew]
    have hmem : ∀ lease ∈ pool.unreleased, lease ∈ later.unreleased :=
      fun lease hlease => by
        rw [hunreleased]
        exact List.mem_append_left _ hlease
    refine ⟨?_, fun slot' run hactive => ?_, fun lease hlease child current
      hphase hcurrent => ?_, fun lease hlease hfalse => ?_, hsound.homes,
      hsound.current, hsound.fresh, hsound.settled, hsound.started,
      hsound.calls, hsound.bounded⟩
    · have hslots := hsound.slots
      rw [havailable] at hslots
      have hmap : (pool.unreleased.map fun lease => (later.leases lease).slot) =
          pool.unreleased.map fun lease => (pool.leases lease).slot :=
        List.map_congr_left fun lease hlease => by rw [hold lease hlease]
      rw [hunreleased, List.map_append, hmap, List.map_singleton, hnew]
      refine List.Perm.trans ?_ hslots
      rw [← List.append_assoc]
      exact List.perm_append_singleton slot _
    · have hrun := hsound.active slot' run hactive
      refine ⟨hrun.child, hrun.ready, hrun.home, hrun.unsettled,
        hmem _ hrun.lease, ?_, ?_, hrun.issued⟩
      · change (later.leases (pool.runs run).lease).slot = slot'
        rw [hold _ hrun.lease]
        exact hrun.leaseSlot
      · change (later.leases (pool.runs run).lease).phase = _
        rw [hold _ hrun.lease]
        exact hrun.phase
    · rw [hunreleased, List.mem_append, List.mem_singleton] at hlease
      rcases hlease with hlease | rfl
      · rw [hold lease hlease] at hphase hcurrent
        exact hsound.starting lease hlease child current hphase hcurrent
      · rw [hnew] at hphase
        cases hphase
    · rw [hunreleased, List.mem_append, List.mem_singleton] at hlease
      rcases hlease with hlease | rfl
      · rw [hold lease hlease] at hfalse ⊢
        exact hsound.unexecuted lease hlease hfalse
      · rw [hnew]

theorem effect_acquire (pool : Pool) : Effect slots pool pool.acquire := by
  unfold Pool.acquire
  split
  · exact .refl pool
  · exact .of_runs rfl rfl rfl fun _ _ => id

/-- A lease whose slot has no active run gives the slot back. -/
theorem Sound.giveBack (hsound : Sound concurrency pool reports) {lease : ℕ}
    (hlease : lease ∈ pool.unreleased)
    (hidle : (pool.slots (pool.leases lease).slot).active = none)
    {value : Lease} (hslot : value.slot = (pool.leases lease).slot)
    (hreleased : value.released = true) :
    Sound concurrency { pool.setLease lease value with
      available := pool.available ++ [value.slot] } reports := by
  set later : Pool := { pool.setLease lease value with
    available := pool.available ++ [value.slot] } with hlater
  have hother : ∀ other, other ≠ lease →
      later.leases other = pool.leases other := fun other hne =>
    setLease_leases_of_ne pool value hne
  have hself : later.leases lease = value := setLease_leases_self pool lease value
  have hnodup : pool.unreleased.Nodup := List.nodup_range.filter _
  have hunreleased : later.unreleased = pool.unreleased.erase lease := by
    rw [hnodup.erase_eq_filter, Pool.unreleased, Pool.unreleased,
      List.filter_filter]
    refine List.filter_congr fun other _ => ?_
    by_cases hsame : other = lease
    · subst hsame
      rw [hself, hreleased]
      simp
    · rw [hother other hsame]
      simp [hsame]
  have hmem : ∀ other ∈ later.unreleased,
      other ≠ lease ∧ other ∈ pool.unreleased := fun other hmem => by
    rw [hunreleased] at hmem
    exact hnodup.mem_erase_iff.mp hmem
  have hrunning : ∀ slot run, (pool.slots slot).active = some run →
      (pool.runs run).lease ≠ lease := by
    rintro slot run hactive rfl
    have hrun := hsound.active slot run hactive
    rw [hrun.leaseSlot, hactive] at hidle
    cases hidle
  refine ⟨?_, fun slot run hactive => ?_, fun other hopen child current
    hphase hcurrent => ?_, fun other hopen hfalse => ?_, hsound.homes,
    hsound.current, hsound.fresh, hsound.settled, hsound.started,
    hsound.calls, hsound.bounded⟩
  · have hmap : (later.unreleased.map fun other => (later.leases other).slot) =
        later.unreleased.map fun other => (pool.leases other).slot :=
      List.map_congr_left fun other hopen => by
        rw [hother other (hmem other hopen).1]
    rw [hmap, hunreleased]
    refine List.Perm.trans ?_ hsound.slots
    change (pool.available ++ [value.slot] ++ _).Perm _
    rw [hslot, List.append_assoc]
    refine List.Perm.append_left _ ?_
    exact ((List.perm_cons_erase hlease).map fun other =>
      (pool.leases other).slot).symm
  · have hrun := hsound.active slot run hactive
    have hne := hrunning slot run hactive
    refine ⟨hrun.child, hrun.ready, hrun.home, hrun.unsettled, ?_, ?_, ?_,
      hrun.issued⟩
    · rw [hunreleased]
      exact hnodup.mem_erase_iff.mpr ⟨hne, hrun.lease⟩
    · change (later.leases (pool.runs run).lease).slot = slot
      rw [hother _ hne]
      exact hrun.leaseSlot
    · change (later.leases (pool.runs run).lease).phase = _
      rw [hother _ hne]
      exact hrun.phase
  · rw [hother other (hmem other hopen).1] at hphase hcurrent
    exact hsound.starting other (hmem other hopen).2 child current hphase
      hcurrent
  · rw [hother other (hmem other hopen).1] at hfalse ⊢
    exact hsound.unexecuted other (hmem other hopen).2 hfalse

/-- Ending a run does not look at the leases. -/
theorem rejectAndRecycle_setLease (pool : Pool) (lease : ℕ) (value : Lease)
    (slot : ℕ) (error : RunError) :
    (pool.setLease lease value).rejectAndRecycle slot error =
      ((pool.rejectAndRecycle slot error).1.setLease lease value,
        (pool.rejectAndRecycle slot error).2) := by
  have hrejected : (pool.setLease lease value).rejectActive slot error =
      ((pool.rejectActive slot error).1.setLease lease value,
        (pool.rejectActive slot error).2) := by
    simp only [Pool.rejectActive]
    rw [show (pool.setLease lease value).slots = pool.slots from rfl]
    split <;> rfl
  have hrecycled : ∀ other : Pool, (other.setLease lease value).recycle slot =
      (other.recycle slot).setLease lease value := by
    intro other
    simp only [Pool.recycle, Pool.retire]
    rw [show (other.setLease lease value).slots = other.slots from rfl]
    split
    · rfl
    · split <;> rfl
  simp only [Pool.rejectAndRecycle, hrejected, hrecycled]

theorem rejectAndRecycle_leases (pool : Pool) (slot : ℕ) (error : RunError) :
    (pool.rejectAndRecycle slot error).1.leases = pool.leases ∧
      (pool.rejectAndRecycle slot error).1.nextLease = pool.nextLease ∧
      (pool.rejectAndRecycle slot error).1.available = pool.available := by
  have hrejected : (pool.rejectActive slot error).1.leases = pool.leases ∧
      (pool.rejectActive slot error).1.nextLease = pool.nextLease ∧
      (pool.rejectActive slot error).1.available = pool.available := by
    unfold Pool.rejectActive
    split <;> exact ⟨rfl, rfl, rfl⟩
  unfold Pool.rejectAndRecycle
  dsimp only
  unfold Pool.recycle Pool.retire
  split
  · exact hrejected
  · split <;> exact hrejected

/-- The lease a release leaves behind. -/
def releasedLease (value : Lease) : Lease :=
  { value with
    released := true
    phase := match value.phase with
      | .finished exit => .finished exit
      | _ => .finished (.error leaseReleased) }

theorem stopProgram_setLease (pool : Pool) (lease : ℕ) (value : Lease) :
    (pool.setLease lease { value with released := true }).stopProgram lease =
      pool.setLease lease (releasedLease value) := by
  unfold Pool.stopProgram releasedLease
  rw [setLease_leases_self]
  cases hvalue : value.phase <;> simp [finish, setPhase, setLease]

theorem release_eq (pool : Pool) (lease : ℕ)
    (hopen : (pool.leases lease).released = false) :
    pool.release lease =
      let value := pool.leases lease
      let ended := if (pool.slots value.slot).active.isSome
        then pool.rejectAndRecycle value.slot leaseReleased else (pool, [])
      ({ ended.1.setLease lease (releasedLease value) with
        available := ended.1.available ++ [value.slot] }, ended.2) := by
  have hslots : (pool.setLease lease { pool.leases lease with
    released := true }).slots = pool.slots := rfl
  unfold Pool.release
  rw [if_neg (by simp [hopen])]
  by_cases hactive : (pool.slots (pool.leases lease).slot).active.isSome
  · simp only [hslots, if_pos hactive, rejectAndRecycle_setLease,
      stopProgram_setLease]
    rfl
  · simp only [hslots, if_neg hactive, stopProgram_setLease]
    rfl

theorem Sound.release (hsound : Sound concurrency pool reports) {lease : ℕ}
    (hissued : lease < pool.nextLease) :
    Sound concurrency (pool.release lease).1
        (reports ++ (pool.release lease).2) ∧
      Effect Set.univ pool (pool.release lease).1 := by
  by_cases hopen : (pool.leases lease).released = false
  · rw [release_eq pool lease hopen]
    have hlease := mem_unreleased.mpr ⟨hissued, hopen⟩
    by_cases hactive : (pool.slots (pool.leases lease).slot).active.isSome
    · dsimp only
      rw [if_pos hactive]
      obtain ⟨hended, hidle⟩ :=
        hsound.rejectAndRecycle (pool.leases lease).slot leaseReleased
      obtain ⟨hleases, hnext, -⟩ :=
        rejectAndRecycle_leases pool (pool.leases lease).slot leaseReleased
      refine ⟨hended.giveBack ?_ ?_ ?_ rfl,
        (effect_rejectAndRecycle hsound _ (Set.mem_univ _) _).trans
          (.of_runs rfl rfl rfl fun _ _ => id)⟩
      · rw [mem_unreleased, hleases, hnext]
        exact ⟨hissued, hopen⟩
      · rw [hleases]
        exact hidle
      · rw [hleases]
        rfl
    · dsimp only
      rw [if_neg hactive, List.append_nil]
      refine ⟨hsound.giveBack hlease ?_ rfl rfl,
        .of_runs rfl rfl rfl fun _ _ => id⟩
      simpa using hactive
  · have hreleased : (pool.leases lease).released = true := by simpa using hopen
    unfold Pool.release
    rw [if_pos hreleased, List.append_nil]
    exact ⟨hsound, .refl pool⟩

/-! ## Runs start -/

/-- A block that keeps the pool sound and brings nothing from a child. -/
structure Safe (concurrency : ℕ) (reports : List Report) (pool later : Pool)
    (emitted : List Report) : Prop where
  sound : Sound concurrency later (reports ++ emitted)
  effect : Effect Set.univ pool later

theorem Safe.quiet (hsound : Sound concurrency pool reports) {later : Pool}
    (hquiet : Quiet pool later) : Safe concurrency reports pool later [] :=
  ⟨by rw [List.append_nil]; exact hsound.quiet hquiet, hquiet.effect⟩

theorem Safe.silent (hsound : Sound concurrency pool reports) :
    Safe concurrency reports pool pool [] := .quiet hsound (.refl pool)

/-- A block after one that reported nothing. -/
theorem Safe.after {first second third : Pool} {emitted : List Report}
    (hleft : Safe concurrency reports first second [])
    (hright : Sound concurrency second reports →
      Safe concurrency reports second third emitted) :
    Safe concurrency reports first third emitted := by
  have hsound := hleft.sound
  rw [List.append_nil] at hsound
  exact ⟨(hright hsound).sound, hleft.effect.trans (hright hsound).effect⟩

theorem Safe.finish (hsound : Sound concurrency pool reports) {lease : ℕ}
    (hexecuted : (pool.leases lease).executed = true)
    (hidle : ∀ slot run, (pool.slots slot).active = some run →
      (pool.runs run).lease ≠ lease) (exit : RunExit) :
    Safe concurrency reports pool (pool.finish lease exit) [] :=
  ⟨by rw [List.append_nil]; exact hsound.finish hexecuted hidle exit,
    effect_setLease _ _ _⟩

/-- The lease of a program that is about to start or starting. -/
structure Waiting (pool : Pool) (lease : ℕ) : Prop where
  unreleased : lease ∈ pool.unreleased
  executed : (pool.leases lease).executed = true
  phase : ∀ run, (pool.leases lease).phase ≠ .running run

theorem Waiting.quiet {lease : ℕ} (hwaiting : Waiting pool lease) {later : Pool}
    (hquiet : Quiet pool later) : Waiting later lease := by
  refine ⟨?_, ?_, ?_⟩
  · rw [hquiet.unreleased]
    exact hwaiting.unreleased
  · rw [hquiet.leases]
    exact hwaiting.executed
  · rw [hquiet.leases]
    exact hwaiting.phase

theorem Waiting.idle {lease : ℕ} (hwaiting : Waiting pool lease)
    (hsound : Sound concurrency pool reports) :
    ∀ slot run, (pool.slots slot).active = some run →
      (pool.runs run).lease ≠ lease :=
  hsound.no_run fun run hrunning => absurd hrunning (hwaiting.phase run)

theorem Waiting.finish {lease : ℕ} (hwaiting : Waiting pool lease)
    (hsound : Sound concurrency pool reports) (exit : RunExit) :
    Safe concurrency reports pool (pool.finish lease exit) [] :=
  .finish hsound hwaiting.executed (hwaiting.idle hsound) exit

theorem Waiting.setPhase {lease : ℕ} (hwaiting : Waiting pool lease)
    (hsound : Sound concurrency pool reports) {phase : Phase}
    (hstarting : ∀ child current, phase = .starting child →
      (pool.slots (pool.leases lease).slot).child = some current →
        current = child) :
    Safe concurrency reports pool (pool.setPhase lease phase) [] := by
  refine ⟨?_, effect_setLease _ _ _⟩
  rw [List.append_nil]
  refine hsound.setLease rfl rfl
    (fun slot run hactive hlease =>
      absurd hlease (hwaiting.idle hsound slot run hactive))
    (fun _ => hstarting) fun _ hfalse => ?_
  rw [show ({ pool.leases lease with phase := phase } : Lease).executed =
    (pool.leases lease).executed from rfl, hwaiting.executed] at hfalse
  cases hfalse

/-- A fork onto the slot of a waiting lease. -/
theorem Waiting.spawn {lease : ℕ} (hwaiting : Waiting pool lease)
    (hsound : Sound concurrency pool reports) :
    Safe concurrency reports pool
      (pool.spawn (pool.leases lease).slot lease) [] := by
  have hidle := hsound.idle_slot hwaiting.unreleased hwaiting.phase
  set slot := (pool.leases lease).slot with hslot
  set forked : Pool := { (pool.setChild pool.nextChild
      { slot := slot }).setSlot slot
        { pool.slots slot with child := some pool.nextChild } with
    nextChild := pool.nextChild + 1 } with hforked
  have hself : forked.slots slot =
      { pool.slots slot with child := some pool.nextChild } := by
    simp [hforked, setSlot, setChild]
  have hother : ∀ other, other ≠ slot →
      forked.slots other = pool.slots other := fun other hne => by
    simp [hforked, setSlot, setChild, hne]
  have hchildren : ∀ child < pool.nextChild,
      forked.children child = pool.children child := fun child hchild => by
    simp [hforked, setSlot, setChild, hchild.ne]
  have hnew : forked.children pool.nextChild = { slot := slot } := by
    simp [hforked, setSlot, setChild]
  have hactive : ∀ other run, (forked.slots other).active = some run →
      other ≠ slot ∧ (pool.slots other).active = some run := by
    intro other run hrun
    by_cases hsame : other = slot
    · subst hsame
      rw [hself] at hrun
      change (pool.slots slot).active = some run at hrun
      rw [hidle] at hrun
      cases hrun
    · rw [hother other hsame] at hrun
      exact ⟨hsame, hrun⟩
  have hchild : ∀ other child, (forked.slots other).child = some child →
      (other = slot ∧ child = pool.nextChild) ∨
        (other ≠ slot ∧ (pool.slots other).child = some child) := by
    intro other child hcurrent
    by_cases hsame : other = slot
    · subst hsame
      rw [hself] at hcurrent
      exact .inl ⟨rfl, (Option.some.inj hcurrent).symm⟩
    · rw [hother other hsame] at hcurrent
      exact .inr ⟨hsame, hcurrent⟩
  have hwhole : pool.spawn slot lease =
      forked.setPhase lease (.starting pool.nextChild) := rfl
  rw [hwhole]
  refine ⟨?_, .of_runs rfl rfl rfl fun other run hrun =>
    (hactive other run hrun).2⟩
  rw [List.append_nil]
  have hleases : ∀ other, other ≠ lease →
      (forked.setPhase lease (.starting pool.nextChild)).leases other =
        pool.leases other := fun other hne => setLease_leases_of_ne _ _ hne
  have hlease : (forked.setPhase lease (.starting pool.nextChild)).leases lease =
      { pool.leases lease with phase := .starting pool.nextChild } :=
    setLease_leases_self _ _ _
  have hleaseSlot : ∀ other, ((forked.setPhase lease
      (.starting pool.nextChild)).leases other).slot =
        (pool.leases other).slot := setLease_same Lease.slot (by rfl)
  have hunreleased : (forked.setPhase lease
      (.starting pool.nextChild)).unreleased = pool.unreleased :=
    setLease_unreleased (by rfl)
  refine ⟨?_, fun other run hrun => ?_, fun other hopen child current hphase
    hcurrent => ?_, fun other hopen hfalse => ?_, fun other child hcurrent => ?_,
    fun other child hcurrent => ?_, hsound.fresh, hsound.settled,
    hsound.started, hsound.calls, hsound.bounded⟩
  · rw [hunreleased]
    simp only [hleaseSlot]
    exact hsound.slots
  · obtain ⟨hne, hold⟩ := hactive other run hrun
    have hkept := hsound.active other run hold
    have hlower := (hsound.homes other _ hkept.child).2
    have hdifferent : (pool.runs run).lease ≠ lease :=
      hwaiting.idle hsound other run hold
    constructor
    · change (forked.slots other).child = _
      rw [hother other hne]
      exact hkept.child
    · change (forked.children (pool.runs run).child).ready.outcome = _
      rw [hchildren _ hlower]
      exact hkept.ready
    · exact hkept.home
    · exact hkept.unsettled
    · rw [hunreleased]
      exact hkept.lease
    · rw [hleaseSlot]
      exact hkept.leaseSlot
    · change ((forked.setPhase lease _).leases (pool.runs run).lease).phase = _
      rw [hleases _ hdifferent]
      exact hkept.phase
    · exact hkept.issued
  · rw [hunreleased] at hopen
    rw [hleaseSlot] at hcurrent
    change (forked.slots (pool.leases other).slot).child = some current
      at hcurrent
    by_cases hsame : other = lease
    · subst hsame
      rw [hlease] at hphase
      obtain rfl := Phase.starting.inj hphase
      rcases hchild _ _ hcurrent with ⟨-, rfl⟩ | ⟨hne, -⟩
      · rfl
      · exact absurd rfl hne
    · rw [hleases other hsame] at hphase
      rcases hchild _ _ hcurrent with ⟨hslots, -⟩ | ⟨-, hold⟩
      · exact absurd (hsound.lease_unique hopen hwaiting.unreleased hslots) hsame
      · exact hsound.starting other hopen child current hphase hold
  · rw [hunreleased] at hopen
    by_cases hsame : other = lease
    · subst hsame
      rw [hlease] at hfalse
      exact absurd (hfalse.symm.trans hwaiting.executed) (by simp)
    · rw [hleases other hsame] at hfalse ⊢
      exact hsound.unexecuted other hopen hfalse
  · change (forked.children child).slot = other ∧ child < pool.nextChild + 1
    rcases hchild _ _ hcurrent with ⟨rfl, rfl⟩ | ⟨-, hold⟩
    · rw [hnew]
      exact ⟨rfl, Nat.lt_succ_self _⟩
    · obtain ⟨hhome, hlower⟩ := hsound.homes other child hold
      rw [hchildren child hlower]
      exact ⟨hhome, hlower.trans (Nat.lt_succ_self _)⟩
  · change (forked.children child).retired = false
    rcases hchild _ _ hcurrent with ⟨rfl, rfl⟩ | ⟨-, hold⟩
    · rw [hnew]
    · rw [hchildren child (hsound.homes other child hold).2]
      exact hsound.current other child hold

theorem Waiting.startChild {lease : ℕ} (hwaiting : Waiting pool lease)
    (hsound : Sound concurrency pool reports) (spawned : Bool) :
    Safe concurrency reports pool (pool.startChild lease spawned) [] := by
  unfold Pool.startChild
  split
  · exact hwaiting.finish hsound _
  · split
    · exact hwaiting.spawn hsound
    · exact hwaiting.finish hsound _

theorem chargeCrashes_kept (slot : ChildSlot) :
    (chargeCrashes slot).child = slot.child ∧
      (chargeCrashes slot).active = slot.active := by
  have hfold : ∀ (crashes : List ℤ) (value : ChildSlot),
      (crashes.foldl (fun (slot : ChildSlot) crashedAt =>
        { slot with
          backoff := some (slot.backoff.getD 0 + 1)
          notBefore := crashedAt + crashDelay (slot.backoff.getD 0) })
        value).child = value.child ∧
      (crashes.foldl (fun (slot : ChildSlot) crashedAt =>
        { slot with
          backoff := some (slot.backoff.getD 0 + 1)
          notBefore := crashedAt + crashDelay (slot.backoff.getD 0) })
        value).active = value.active := by
    intro crashes
    induction crashes with
    | nil => exact fun _ => ⟨rfl, rfl⟩
    | cons crashedAt rest ih => exact fun value => ih _
  exact hfold slot.crashes { slot with crashes := [] }

theorem Waiting.ensureChild {lease : ℕ} (hwaiting : Waiting pool lease)
    (hsound : Sound concurrency pool reports) (spawned : Bool) :
    Safe concurrency reports pool (pool.ensureChild lease spawned) [] := by
  have hfresh : ∀ later : Pool, Quiet pool later →
      Safe concurrency reports pool
        (if (later.setSlot (pool.leases lease).slot (chargeCrashes
            (later.slots (pool.leases lease).slot))).now <
              (chargeCrashes (later.slots (pool.leases lease).slot)).notBefore
        then (later.setSlot (pool.leases lease).slot (chargeCrashes
            (later.slots (pool.leases lease).slot))).setPhase lease .restarting
        else (later.setSlot (pool.leases lease).slot (chargeCrashes
            (later.slots (pool.leases lease).slot))).startChild lease spawned)
        [] := by
    intro later hquiet
    have hcharged := hquiet.trans (quiet_setSlot later (pool.leases lease).slot
      (chargeCrashes (later.slots (pool.leases lease).slot))
      (chargeCrashes_kept _).1 (chargeCrashes_kept _).2)
    refine (Safe.quiet hsound hcharged).after fun hlater => ?_
    have hwaiting' := hwaiting.quiet hcharged
    split
    · exact hwaiting'.setPhase hlater fun _ _ hphase => by cases hphase
    · exact hwaiting'.startChild hlater spawned
  unfold Pool.ensureChild
  dsimp only
  split
  · exact hwaiting.finish hsound _
  · split
    · exact hfresh pool (.refl pool)
    · rename_i child hchild
      split
      · refine hwaiting.setPhase hsound fun other current hphase hcurrent => ?_
        obtain rfl := Phase.starting.inj hphase
        exact Option.some.inj (hcurrent.symm.trans hchild)
      · exact hfresh _ (quiet_retire pool _ child none
          (hsound.home_unique hchild) fun _ =>
            hsound.idle_slot hwaiting.unreleased hwaiting.phase)

theorem Safe.execute (hsound : Sound concurrency pool reports) {lease : ℕ}
    (hissued : lease < pool.nextLease) (providers : List (String × List String))
    (spawned : Bool) :
    Safe concurrency reports pool (pool.execute lease providers spawned) [] := by
  unfold Pool.execute
  dsimp only
  split
  · exact .silent hsound
  · rename_i hready
    simp only [Bool.or_eq_true, not_or, Bool.not_eq_true] at hready
    have hlease := mem_unreleased.mpr ⟨hissued, hready.1⟩
    have hphase := hsound.unexecuted lease hlease hready.2
    have hidle : ∀ slot run, (pool.slots slot).active = some run →
        (pool.runs run).lease ≠ lease := hsound.no_run fun run hrunning => by
      rw [hphase] at hrunning
      cases hrunning
    set value : Lease := { pool.leases lease with
      executed := true, providers := providers } with hvalue
    have hmoved : Safe concurrency reports pool (pool.setLease lease value) [] := by
      refine ⟨?_, effect_setLease _ _ _⟩
      rw [List.append_nil]
      refine hsound.setLease rfl rfl (fun slot run hactive hsame =>
        absurd hsame (hidle slot run hactive)) (fun _ child current hstarting _ => ?_)
        fun _ hfalse => by cases hfalse
      rw [show value.phase = (pool.leases lease).phase from rfl, hphase]
        at hstarting
      cases hstarting
    have hwaiting : Waiting (pool.setLease lease value) lease := by
      refine ⟨?_, ?_, fun run hrunning => ?_⟩
      · rw [setLease_unreleased (by rfl)]
        exact hlease
      · rw [setLease_leases_self]
      · rw [setLease_leases_self, show value.phase =
          (pool.leases lease).phase from rfl, hphase] at hrunning
        cases hrunning
    refine hmoved.after fun hlater => ?_
    split
    · exact hwaiting.finish hlater _
    · exact hwaiting.ensureChild hlater spawned

end Pool

end Connecta.QuickJs
