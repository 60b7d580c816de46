import Connecta.QuickJs.PoolIsolation

/-!
# The pool over a whole run

What is left of the blocks (a run starts, a child speaks, a child goes, a host
call answers) and, from all of them, what one step of the pool may do.  A run
starts on a child that reported ready to the very program that waited for it;
from there on only that child reaches it.
-/

namespace Connecta.QuickJs

open Connecta.Runtime
open Connecta.Transition

namespace Pool

variable {concurrency : ℕ} {pool : Pool} {reports : List Report}

/-! ## A run starts -/

theorem bounded_empty {run : ActiveRun} (hlogs : run.logs = [])
    (hchars : run.logChars = 0) (hbytes : run.resultBytes = 0) :
    Bounded run := by
  refine ⟨?_, ?_, .inl ?_⟩
  · rw [hchars]
    exact Nat.zero_le _
  · rw [hbytes]
    exact Nat.zero_le _
  · rw [hlogs]
    exact Nat.zero_le _

/-- The pool once the next run sits on a slot. -/
def activated (pool : Pool) (slot lease : ℕ) (active : ActiveRun) : Pool :=
  (({ pool with nextJobId := pool.nextJobId + 1 }.setRun pool.nextJobId
    active).setSlot slot
      { pool.slots slot with active := some pool.nextJobId }).setPhase lease
        (.running pool.nextJobId)

theorem Sound.activate (hsound : Sound concurrency pool reports)
    {lease child : ℕ} (hwaiting : Waiting pool lease)
    (hchild : (pool.slots (pool.leases lease).slot).child = some child)
    (hready : (pool.children child).ready.outcome = some (.ok ()))
    (active : ActiveRun) (hlease : active.lease = lease)
    (hslot : active.slot = (pool.leases lease).slot)
    (hsent : active.child = child) (houtcome : active.outcome.outcome = none)
    (hbounded : Bounded active) :
    Sound concurrency (pool.activated (pool.leases lease).slot lease active)
      reports := by
  have hidle := hsound.idle_slot hwaiting.unreleased hwaiting.phase
  set slot := (pool.leases lease).slot with hhome
  set run := pool.nextJobId with hrun
  set later := pool.activated slot lease active with hlater
  have hself : later.runs run = active := by
    simp [hlater, activated, setRun, setSlot, setPhase, Pool.setLease, hrun]
  have hruns : ∀ other, other ≠ run → later.runs other = pool.runs other :=
    fun other hne => by
      simp [hlater, activated, setRun, setSlot, setPhase, Pool.setLease, ← hrun,
        hne]
  have hslotSelf : later.slots slot =
      { pool.slots slot with active := some run } := by
    simp [hlater, activated, setRun, setSlot, setPhase, Pool.setLease, hrun]
  have hslots : ∀ other, other ≠ slot → later.slots other = pool.slots other :=
    fun other hne => by
      simp [hlater, activated, setRun, setSlot, setPhase, Pool.setLease, hne]
  have hchildren : ∀ other, (later.slots other).child =
      (pool.slots other).child := fun other => by
    by_cases hsame : other = slot
    · rw [hsame, hslotSelf]
    · rw [hslots other hsame]
  have hleaseSelf : later.leases lease =
      { pool.leases lease with phase := .running run } :=
    setLease_leases_self _ _ _
  have hleases : ∀ other, other ≠ lease →
      later.leases other = pool.leases other := fun other hne =>
    setLease_leases_of_ne _ _ hne
  have hleaseSlot : ∀ other, (later.leases other).slot =
      (pool.leases other).slot := setLease_same Lease.slot (by rfl)
  have hunreleased : later.unreleased = pool.unreleased :=
    setLease_unreleased (by rfl)
  refine ⟨?_, fun other another hactive => ?_, fun other hopen waited current
    hphase hcurrent => ?_, fun other hopen hfalse => ?_,
    fun other another hcurrent => ?_, fun other another hcurrent => ?_,
    fun other hother => ?_, fun other => ?_, fun another other hmem => ?_,
    fun call hcall => ?_, fun other => ?_⟩
  · rw [hunreleased]
    simp only [hleaseSlot]
    exact hsound.slots
  · by_cases hsame : other = slot
    · subst hsame
      rw [hslotSelf] at hactive
      obtain rfl := Option.some.inj hactive
      constructor
      · rw [hchildren, hself, hsent]
        exact hchild
      · rw [hself, hsent]
        exact hready
      · rw [hself]
        exact hslot
      · rw [hself]
        exact houtcome
      · rw [hself, hlease, hunreleased]
        exact hwaiting.unreleased
      · rw [hself, hlease, hleaseSlot]
      · rw [hself, hlease, hleaseSelf]
      · exact Nat.lt_succ_self _
    · rw [hslots other hsame] at hactive
      have hkept := hsound.active other another hactive
      have hdifferent := hruns another hkept.issued.ne
      have hapart : (pool.runs another).lease ≠ lease :=
        hwaiting.idle hsound other another hactive
      constructor
      · rw [hchildren, hdifferent]
        exact hkept.child
      · rw [hdifferent]
        exact hkept.ready
      · rw [hdifferent]
        exact hkept.home
      · rw [hdifferent]
        exact hkept.unsettled
      · rw [hdifferent, hunreleased]
        exact hkept.lease
      · rw [hdifferent, hleaseSlot]
        exact hkept.leaseSlot
      · rw [hdifferent, hleases _ hapart]
        exact hkept.phase
      · exact hkept.issued.trans (Nat.lt_succ_self _)
  · rw [hunreleased] at hopen
    rw [hleaseSlot, hchildren] at hcurrent
    by_cases hsame : other = lease
    · rw [hsame, hleaseSelf] at hphase
      cases hphase
    · rw [hleases other hsame] at hphase
      exact hsound.starting other hopen waited current hphase hcurrent
  · rw [hunreleased] at hopen
    by_cases hsame : other = lease
    · rw [hsame, hleaseSelf] at hfalse
      exact absurd (hfalse.symm.trans hwaiting.executed) (by simp)
    · rw [hleases other hsame] at hfalse ⊢
      exact hsound.unexecuted other hopen hfalse
  · rw [hchildren] at hcurrent
    exact hsound.homes other another hcurrent
  · rw [hchildren] at hcurrent
    exact hsound.current other another hcurrent
  · have hlower : run < other := hother
    rw [hruns other hlower.ne']
    exact hsound.fresh other hlower.le
  · by_cases hsame : other = run
    · rw [hsame, hself, hsound.settled, houtcome, hsound.fresh run le_rfl]
    · rw [hruns other hsame]
      exact hsound.settled other
  · obtain ⟨hissued, hkept⟩ := hsound.started another other hmem
    rw [hruns other hissued.ne]
    exact ⟨hissued.trans (Nat.lt_succ_self _), hkept⟩
  · obtain ⟨hissued, hsame⟩ := hsound.calls call hcall
    change (pool.calls call).run < run + 1 ∧
      (pool.calls call).slot = (later.runs (pool.calls call).run).slot ∧
      (pool.calls call).child = (later.runs (pool.calls call).run).child
    rw [hruns _ hissued.ne]
    exact ⟨hissued.trans (Nat.lt_succ_self _), hsame⟩
  · by_cases hsame : other = run
    · rw [hsame, hself]
      exact hbounded
    · rw [hruns other hsame]
      exact hsound.bounded other

theorem effect_activated (pool : Pool) (slot lease : ℕ) (active : ActiveRun) :
    Effect Set.univ pool (pool.activated slot lease active) := by
  have hruns : ∀ run < pool.nextJobId,
      (pool.activated slot lease active).runs run = pool.runs run :=
    fun run hissued => by
      simp [activated, setRun, setSlot, setPhase, Pool.setLease, hissued.ne]
  refine ⟨⟨Nat.le_succ _, fun run hissued _ => hruns run hissued,
    fun run hissued hidle other _ hactive => ?_⟩, rfl,
    fun run hissued => by rw [hruns run hissued],
    fun run hissued result hresult => by rwa [hruns run hissued] at hresult⟩
  by_cases hsame : other = slot
  · have hnew : pool.nextJobId = run := by
      simpa [activated, setRun, setSlot, setPhase, Pool.setLease, hsame]
        using hactive
    exact hissued.ne hnew.symm
  · refine hidle other (Set.mem_univ _) ?_
    simpa [activated, setRun, setSlot, setPhase, Pool.setLease, hsame]
      using hactive

/-- A run id passed over. -/
theorem Safe.skip (hsound : Sound concurrency pool reports) :
    Safe concurrency reports pool
      { pool with nextJobId := pool.nextJobId + 1 } [] := by
  refine ⟨?_, ⟨Nat.le_succ _, fun _ _ _ => rfl, fun _ _ hidle => hidle⟩, rfl,
    fun _ _ => rfl, fun _ _ _ => id⟩
  rw [List.append_nil]
  refine ⟨hsound.slots, fun slot run hactive => ?_, hsound.starting,
    hsound.unexecuted, hsound.homes, hsound.current,
    fun run hrun => hsound.fresh run (Nat.le_of_succ_le hrun), hsound.settled,
    fun child run hmem => ?_, fun call hcall => ?_, hsound.bounded⟩
  · have hrun := hsound.active slot run hactive
    exact ⟨hrun.child, hrun.ready, hrun.home, hrun.unsettled, hrun.lease,
      hrun.leaseSlot, hrun.phase, hrun.issued.trans (Nat.lt_succ_self _)⟩
  · obtain ⟨hissued, hsame⟩ := hsound.started child run hmem
    exact ⟨hissued.trans (Nat.lt_succ_self _), hsame⟩
  · obtain ⟨hissued, hsame⟩ := hsound.calls call hcall
    exact ⟨hissued.trans (Nat.lt_succ_self _), hsame⟩

/-- A report that settles nothing and starts no other run. -/
theorem Sound.report (hsound : Sound concurrency pool reports) {report : Report}
    (hsettled : ∀ run, report ≠ .settled run)
    (hstarted : ∀ child run, report = .started child run →
      run < pool.nextJobId ∧ (pool.runs run).child = child) :
    Sound concurrency pool (reports ++ [report]) := by
  refine ⟨hsound.slots, hsound.active, hsound.starting, hsound.unexecuted,
    hsound.homes, hsound.current, hsound.fresh, fun run => ?_,
    fun child run hmem => ?_, hsound.calls, hsound.bounded⟩
  · rw [List.count_append, hsound.settled,
      List.count_eq_zero_of_not_mem (by simpa using (hsettled run).symm),
      Nat.add_zero]
  · rcases List.mem_append.mp hmem with hold | hnew
    · exact hsound.started child run hold
    · exact hstarted child run (List.mem_singleton.mp hnew).symm

theorem Safe.rejectAndRecycle (hsound : Sound concurrency pool reports)
    (slot : ℕ) (error : RunError) :
    Safe concurrency reports pool (pool.rejectAndRecycle slot error).1
      (pool.rejectAndRecycle slot error).2 :=
  ⟨(hsound.rejectAndRecycle slot error).1,
    effect_rejectAndRecycle hsound slot (Set.mem_univ _) error⟩

theorem Safe.endWith (hsound : Sound concurrency pool reports) (run : ℕ)
    (error : RunError) :
    Safe concurrency reports pool (pool.endWith run error).1
      (pool.endWith run error).2 :=
  ⟨hsound.endWith run error, effect_endWith hsound run error⟩

theorem Safe.proceed (hsound : Sound concurrency pool reports)
    {lease awaited : ℕ} (hlease : lease ∈ pool.unreleased)
    (hphase : (pool.leases lease).phase = .starting awaited)
    {ready : Except RunError Unit}
    (hready : (pool.children awaited).ready.outcome = some ready)
    (fits sent : Bool) :
    Safe concurrency reports pool (pool.proceed lease ready fits sent).1
      (pool.proceed lease ready fits sent).2 := by
  have hwaiting : Waiting pool lease := by
    refine ⟨hlease, hsound.executed hlease ?_, fun run hrunning => ?_⟩
    · rw [hphase]
      simp
    · rw [hphase] at hrunning
      cases hrunning
  unfold Pool.proceed
  dsimp only
  split
  · exact hwaiting.finish hsound _
  · split
    · exact hwaiting.finish hsound _
    · split
      · exact hwaiting.finish hsound _
      · rename_i child hchild
        obtain rfl := hsound.starting lease hlease awaited child hphase hchild
        split
        · exact hwaiting.finish hsound _
        · split
          · refine (Safe.skip hsound).after fun hlater => ?_
            have hwaiting' : Waiting { pool with
                nextJobId := pool.nextJobId + 1 } lease :=
              ⟨hwaiting.unreleased, hwaiting.executed, hwaiting.phase⟩
            exact hwaiting'.finish hlater _
          · have hactivated := hsound.activate hwaiting hchild hready
              { lease := lease, slot := (pool.leases lease).slot, child := child
                providers := (pool.leases lease).providers }
              rfl rfl rfl rfl (bounded_empty rfl rfl rfl)
            have heffect := effect_activated pool (pool.leases lease).slot lease
              { lease := lease, slot := (pool.leases lease).slot, child := child
                providers := (pool.leases lease).providers }
            split
            · refine ⟨hactivated.report (fun _ => by simp)
                fun other run hreport => ?_, heffect⟩
              obtain ⟨rfl, rfl⟩ := Report.started.inj hreport
              refine ⟨Nat.lt_succ_self _, ?_⟩
              simp [activated, setRun, setSlot, setPhase, Pool.setLease]
            · exact ⟨(hactivated.rejectAndRecycle _ _).1, heffect.trans
                (effect_rejectAndRecycle hactivated _ (Set.mem_univ _) _)⟩

/-! ## Programs are told -/

theorem Safe.setAborted (hsound : Sound concurrency pool reports) (lease : ℕ) :
    Safe concurrency reports pool
      (pool.setLease lease { pool.leases lease with aborted := true }) [] := by
  refine ⟨?_, effect_setLease _ _ _⟩
  rw [List.append_nil]
  exact hsound.setLease rfl rfl (fun _ _ => hsound.active_lease)
    (fun hlease => hsound.starting lease hlease)
    fun hlease => hsound.unexecuted lease hlease

/-- A program that has moved and has no run any more may end. -/
theorem Safe.stop (hsound : Sound concurrency pool reports) {lease : ℕ}
    (hlease : lease ∈ pool.unreleased)
    (hphase : (pool.leases lease).phase ≠ .idle)
    (hidle : ∀ run, (pool.leases lease).phase = .running run →
      ∀ slot, (pool.slots slot).active ≠ some run) (exit : RunExit) :
    Safe concurrency reports pool (pool.finish lease exit) [] :=
  .finish hsound (hsound.executed hlease hphase) (hsound.no_run hidle) exit

theorem Safe.abort (hsound : Sound concurrency pool reports) {lease : ℕ}
    (hlease : lease ∈ pool.unreleased) :
    Safe concurrency reports pool (pool.abort lease).1 (pool.abort lease).2 := by
  refine (Safe.setAborted hsound lease).after fun hlater => ?_
  have hopen : lease ∈ (pool.setLease lease
      { pool.leases lease with aborted := true }).unreleased := by
    rwa [setLease_unreleased (by rfl)]
  unfold Pool.abort
  dsimp only
  split
  · rename_i hphase
    refine .stop hlater hopen ?_ (fun run hrunning => ?_) _
    · rw [hphase]
      simp
    · rw [hphase] at hrunning
      cases hrunning
  · rename_i child hphase
    split
    · refine .stop hlater hopen ?_ (fun run hrunning => ?_) _
      · rw [hphase]
        simp
      · rw [hphase] at hrunning
        cases hrunning
    · exact .silent hlater
  · exact .endWith hlater _ _
  · exact .silent hlater

theorem endWith_leases (pool : Pool) (run : ℕ) (error : RunError) :
    (pool.endWith run error).1.leases = pool.leases ∧
      (pool.endWith run error).1.nextLease = pool.nextLease := by
  unfold Pool.endWith
  dsimp only
  split
  · obtain ⟨hleases, hnext, -⟩ :=
      rejectAndRecycle_leases pool (pool.runs run).slot error
    exact ⟨hleases, hnext⟩
  · exact ⟨rfl, rfl⟩

theorem Safe.interrupt (hsound : Sound concurrency pool reports) {lease : ℕ}
    (hlease : lease ∈ pool.unreleased) :
    Safe concurrency reports pool (pool.interrupt lease).1
      (pool.interrupt lease).2 := by
  have hstop : ∀ exit, ((pool.leases lease).phase = .restarting ∨
      ∃ child, (pool.leases lease).phase = .starting child) →
        Safe concurrency reports pool (pool.finish lease exit) [] := by
    intro exit hwaiting
    refine .stop hsound hlease ?_ (fun run hrunning => ?_) exit
    · rcases hwaiting with hphase | ⟨child, hphase⟩
      · rw [hphase]
        simp
      · rw [hphase]
        simp
    · rw [hrunning] at hwaiting
      simp at hwaiting
  unfold Pool.interrupt
  dsimp only
  split
  · rename_i hphase
    exact hstop _ (.inl hphase)
  · rename_i child hphase
    exact hstop _ (.inr ⟨child, hphase⟩)
  · rename_i run hphase
    obtain ⟨hleases, hnext⟩ := endWith_leases pool run
      { message := "Executor execution was interrupted." }
    have hended := hsound.endWith run
      { message := "Executor execution was interrupted." }
    have hopen : lease ∈ (pool.endWith run
        { message := "Executor execution was interrupted." }).1.unreleased := by
      rw [mem_unreleased, hleases, hnext]
      exact mem_unreleased.mp hlease
    have hstopped := Safe.stop hended hopen (by rw [hleases, hphase]; simp)
      (fun other hother => by
        rw [hleases, hphase] at hother
        obtain rfl := Phase.running.inj hother
        exact endWith_idle hsound run _)
      (.error { message := "Executor execution was interrupted." })
    refine ⟨?_, (effect_endWith hsound run _).trans hstopped.effect⟩
    have hsound' := hstopped.sound
    rwa [List.append_nil] at hsound'
  · exact .silent hsound

/-- The outcome a program hears is that of a run that is over. -/
theorem Safe.hear (hsound : Sound concurrency pool reports) {lease run : ℕ}
    (hlease : lease ∈ pool.unreleased)
    (hphase : (pool.leases lease).phase = .running run) {exit : RunExit}
    (hsettled : (pool.runs run).outcome.outcome = some exit) :
    Safe concurrency reports pool (pool.finish lease exit) [] := by
  refine .stop hsound hlease ?_ (fun other hother slot hactive => ?_) exit
  · rw [hphase]
    simp
  · rw [hphase] at hother
    obtain rfl := Phase.running.inj hother
    have hrun := hsound.active slot run hactive
    rw [hrun.unsettled] at hsettled
    cases hsettled

/-! ## Children go -/

theorem Safe.onError (hsound : Sound concurrency pool reports) (child : ℕ)
    (error : RunError) :
    Safe concurrency reports pool (pool.onError child error).1
      (pool.onError child error).2 := by
  unfold Pool.onError
  dsimp only
  split
  · exact .silent hsound
  · split
    · exact .quiet hsound (hsound.quiet_failChildStartup _ _ _)
    · exact .rejectAndRecycle hsound _ _

/-- Detaching a child and rejecting the slot's run touch different things. -/
theorem rejectActive_retire (pool : Pool) (slot child : ℕ)
    (readyError : Option RunError) (error : RunError) :
    (pool.retire slot child readyError).rejectActive slot error =
      ((pool.rejectActive slot error).1.retire slot child readyError,
        (pool.rejectActive slot error).2) := by
  by_cases hcurrent : (pool.slots slot).child = some child
  · rcases hactive : (pool.slots slot).active with _ | run
    · simp [Pool.rejectActive, Pool.retire, setSlot, setChild, hcurrent, hactive]
    · simp [Pool.rejectActive, Pool.retire, Pool.settleActive, setSlot, setChild,
        setRun, hcurrent, hactive]
  · rcases hactive : (pool.slots slot).active with _ | run
    · simp [Pool.rejectActive, Pool.retire, setChild, hcurrent, hactive]
    · simp [Pool.rejectActive, Pool.retire, Pool.settleActive, setSlot, setChild,
        setRun, hcurrent, hactive]

theorem Safe.onClose (hsound : Sound concurrency pool reports) (child : ℕ)
    (exit : String) :
    Safe concurrency reports pool (pool.onClose child exit).1
      (pool.onClose child exit).2 := by
  have hexited : Quiet pool (pool.setChild child
      { pool.children child with exited := true }) :=
    quiet_setChild _ _ _ rfl (fun _ _ => id) fun _ => id
  have hcrashed : Quiet pool (if (pool.children child).retired
      then pool.setChild child { pool.children child with exited := true }
      else (pool.setChild child { pool.children child with
        exited := true }).recordCrash (pool.children child).slot) := by
    split
    · exact hexited
    · exact hexited.trans (quiet_recordCrash _ _)
  have hhome : ∀ other, (pool.slots other).child = some child →
      other = (pool.children child).slot := fun other hother =>
    (hsound.homes other child hother).1.symm
  unfold Pool.onClose
  dsimp only
  generalize (if (pool.children child).retired = true then _ else _ : Pool) =
    crashed at hcrashed ⊢
  refine (Safe.quiet hsound hcrashed).after fun hlater => ?_
  split
  · rename_i hgone
    dsimp only
    refine .quiet hlater (quiet_retire _ _ _ _ (fun other hother =>
      hhome other (hcrashed.child other child hother)) fun hcurrent => ?_)
    have hold := hcrashed.child _ child hcurrent
    rcases hgone with hretired | hformer
    · rw [hsound.current _ child hold] at hretired
      cases hretired
    · exact absurd hold hformer
  · rw [rejectActive_retire]
    obtain ⟨hrejected, hidle⟩ := hlater.rejectActive (pool.children child).slot
      { message := "QuickJS child exited unexpectedly" ++ " (" ++ exit ++ ")."
        stderrTail := (pool.children child).stderrTail }
    have hquiet := quiet_retire _ (pool.children child).slot child
      (some { message := "QuickJS child exited before becoming ready" ++ " (" ++
          exit ++ ").", stderrTail := (pool.children child).stderrTail })
      (fun other hother => hhome other (hcrashed.child other child
        (rejectActive_child _ _ _ other ▸ hother))) fun _ => hidle
    exact ⟨hrejected.quiet hquiet,
      (effect_rejectActive _ (Set.mem_univ _) _).trans hquiet.effect⟩

theorem Safe.stopSlots (hsound : Sound concurrency pool reports)
    (slots : List ℕ) :
    Safe concurrency reports pool (Pool.stopSlots slots pool).1
      (Pool.stopSlots slots pool).2 := by
  induction slots generalizing pool reports with
  | nil => exact .silent hsound
  | cons slot rest ih =>
      have hstopped := hsound.stopSlot slot
      have hlater := ih hstopped
      refine ⟨?_, (effect_stopSlot hsound slot (Set.mem_univ _)).trans
        hlater.effect⟩
      have hwhole := hlater.sound
      rwa [List.append_assoc] at hwhole

theorem Safe.close (hsound : Sound concurrency pool reports) :
    Safe concurrency reports pool (pool.close concurrency).1
      (pool.close concurrency).2 := by
  unfold Pool.close
  split
  · exact .silent hsound
  · have hclosed : Quiet pool { pool with closed := true } :=
      ⟨rfl, rfl, rfl, rfl, rfl, rfl, rfl, rfl, fun _ => rfl, fun _ _ => id,
        fun _ _ _ => rfl, fun _ => rfl, fun _ _ _ => id, fun _ _ => id⟩
    exact (Safe.quiet hsound hclosed).after fun hlater =>
      .stopSlots hlater (List.range concurrency)

/-! ## Host calls are answered -/

theorem Safe.answer (hsound : Sound concurrency pool reports) (call : ℕ)
    (payload : HostResultPayload) (sent : Bool) :
    Safe concurrency reports pool (pool.answer call payload sent).1
      (pool.answer call payload sent).2 := by
  have hanswered : Safe concurrency reports pool { pool with
      calls := Function.update pool.calls call
        { pool.calls call with answered := true } } [] := by
    refine ⟨?_, .of_runs rfl rfl rfl fun _ _ => id⟩
    rw [List.append_nil]
    refine ⟨hsound.slots, fun slot run hactive => ?_, hsound.starting,
      hsound.unexecuted, hsound.homes, hsound.current, hsound.fresh,
      hsound.settled, hsound.started, fun other hother => ?_, hsound.bounded⟩
    · have hrun := hsound.active slot run hactive
      exact ⟨hrun.child, hrun.ready, hrun.home, hrun.unsettled, hrun.lease,
        hrun.leaseSlot, hrun.phase, hrun.issued⟩
    · by_cases hsame : other = call
      · subst hsame
        simpa using hsound.calls other hother
      · simpa [hsame] using hsound.calls other hother
  refine hanswered.after fun hlater => ?_
  unfold Pool.answer
  dsimp only
  split
  · split
    · refine ⟨?_, .refl _⟩
      exact hlater.report (fun _ hreport => by cases hreport)
        fun _ _ hreport => by cases hreport
    · exact .rejectAndRecycle hlater _ _
  · exact .silent hlater

/-! ## A child speaks -/

variable {codec : Codec}

/-- A block that may bring something from a child to the run on its slot. -/
structure Contained (concurrency : ℕ) (reports : List Report) (slot : ℕ)
    (pool later : Pool) (emitted : List Report) : Prop where
  sound : Sound concurrency later (reports ++ emitted)
  untouched : ∀ slots : Set ℕ, slot ∈ slots → Untouched slots pool later

theorem Contained.quiet (hsound : Sound concurrency pool reports) {slot : ℕ}
    {later : Pool} (hquiet : Quiet pool later) :
    Contained concurrency reports slot pool later [] :=
  ⟨by rw [List.append_nil]; exact hsound.quiet hquiet,
    fun _ _ => hquiet.effect.toUntouched⟩

theorem Contained.after {slot : ℕ} {first second third : Pool}
    {emitted : List Report}
    (hleft : Contained concurrency reports slot first second [])
    (hright : Sound concurrency second reports →
      Contained concurrency reports slot second third emitted) :
    Contained concurrency reports slot first third emitted := by
  have hsound := hleft.sound
  rw [List.append_nil] at hsound
  exact ⟨(hright hsound).sound, fun slots hslot =>
    (hleft.untouched slots hslot).trans ((hright hsound).untouched slots hslot)⟩

theorem Contained.rejectAndRecycle (hsound : Sound concurrency pool reports)
    (slot : ℕ) (error : RunError) :
    Contained concurrency reports slot pool
      (pool.rejectAndRecycle slot error).1
      (pool.rejectAndRecycle slot error).2 :=
  ⟨(hsound.rejectAndRecycle slot error).1, fun _ hslot =>
    (effect_rejectAndRecycle hsound slot hslot error).toUntouched⟩

/-- What identifies a run stays, and what it accepted keeps its bounds. -/
theorem Contained.setRun (hsound : Sound concurrency pool reports)
    {slot run : ℕ} (hactive : (pool.slots slot).active = some run)
    {value : ActiveRun} (hlease : value.lease = (pool.runs run).lease)
    (hslot : value.slot = (pool.runs run).slot)
    (hchild : value.child = (pool.runs run).child)
    (houtcome : value.outcome = (pool.runs run).outcome)
    (hbounded : Bounded value) :
    Contained concurrency reports slot pool (pool.setRun run value) [] := by
  refine ⟨?_, fun slots hmem => ⟨le_rfl, fun other _ hidle => ?_,
    fun _ _ hidle => hidle⟩⟩
  · rw [List.append_nil]
    refine ⟨hsound.slots, fun other another hother => ?_, hsound.starting,
      hsound.unexecuted, hsound.homes, hsound.current, fun other hother => ?_,
      fun other => ?_, fun another other hmem => ?_, fun call hcall => ?_,
      fun other => ?_⟩
    · have hkept := hsound.active other another hother
      refine ⟨?_, ?_, ?_, ?_, ?_, ?_, ?_, hkept.issued⟩
      · rw [setRun_same ActiveRun.child hchild]
        exact hkept.child
      · rw [setRun_same ActiveRun.child hchild]
        exact hkept.ready
      · rw [setRun_same ActiveRun.slot hslot]
        exact hkept.home
      · rw [setRun_same ActiveRun.outcome houtcome]
        exact hkept.unsettled
      · rw [setRun_same ActiveRun.lease hlease]
        exact hkept.lease
      · rw [setRun_same ActiveRun.lease hlease]
        exact hkept.leaseSlot
      · rw [setRun_same ActiveRun.lease hlease]
        exact hkept.phase
    · rw [setRun_same ActiveRun.outcome houtcome]
      exact hsound.fresh other hother
    · rw [setRun_same ActiveRun.outcome houtcome]
      exact hsound.settled other
    · rw [setRun_same ActiveRun.child hchild]
      exact hsound.started another other hmem
    · rw [setRun_same ActiveRun.child hchild, setRun_same ActiveRun.slot hslot]
      exact hsound.calls call hcall
    · by_cases hsame : other = run
      · rw [hsame, setRun_runs_self]
        exact hbounded
      · rw [setRun_runs_of_ne pool value hsame]
        exact hsound.bounded other
  · refine setRun_runs_of_ne pool value ?_
    rintro rfl
    exact hidle slot hmem hactive

theorem transcript_concat (logs : List JsString) (entry : JsString) :
    transcript (logs ++ [entry]) = transcript logs + (entry.length + 1) := by
  simp [transcript]

/-- An entry that fits is charged in full; one that does not spends the bound. -/
theorem bounded_appendLog {active : ActiveRun} (hbounded : Bounded active)
    (hroom : active.logChars < maxExecuteLogChars + 1) (entry : JsString) :
    Bounded (appendLog active entry) := by
  have hlogs : transcript active.logs ≤ active.logChars + 1 := by
    rcases hbounded.logs with hlogs | hfull
    · exact hlogs
    · exact absurd hfull.1 hroom.ne
  have hseparated : transcript active.logs ≤
      active.logChars + (if active.logs = [] then 0 else 1) := by
    by_cases hnil : active.logs = []
    · rw [hnil]
      exact Nat.zero_le _
    · rwa [if_neg hnil]
  have hseparator : (if active.logs = [] then 0 else 1) ≤ 1 := by
    split <;> decide
  unfold appendLog
  dsimp only
  generalize (if active.logs = [] then 0 else 1) = separator
    at hseparated hseparator ⊢
  split
  · refine ⟨le_rfl, hbounded.resultBytes, .inr ⟨rfl, ?_⟩⟩
    have hfront := length_tokenPrefix_le entry
      (maxExecuteLogChars + 1 - active.logChars - separator)
    rw [transcript_concat, List.length_append]
    change _ ≤ maxExecuteLogChars + 1 + 1 + truncatedMark.length
    omega
  · rename_i hfits
    refine ⟨?_, hbounded.resultBytes, .inl ?_⟩
    · change active.logChars + separator + entry.length ≤ _
      omega
    · rw [transcript_concat]
      change _ ≤ active.logChars + separator + entry.length + 1
      omega

theorem bounded_receiveLog {active : ActiveRun} (hbounded : Bounded active)
    (message : ChildToParentMessage) (payloadJson : JsString) :
    Bounded (receiveLog codec active message payloadJson) := by
  unfold receiveLog
  split
  · exact hbounded
  · rename_i hroom
    split
    · exact hbounded
    · split
      · exact hbounded
      · split
        · exact hbounded
        · exact bounded_appendLog hbounded (not_le.mp hroom) _

/-- Logging changes the logs and their count. -/
theorem appendLog_kept (active : ActiveRun) (entry : JsString) :
    (appendLog active entry).lease = active.lease ∧
      (appendLog active entry).slot = active.slot ∧
      (appendLog active entry).child = active.child ∧
      (appendLog active entry).outcome = active.outcome := by
  unfold appendLog
  dsimp only
  generalize (if active.logs = [] then 0 else 1) = separator
  split <;> exact ⟨rfl, rfl, rfl, rfl⟩

theorem receiveLog_kept (active : ActiveRun) (message : ChildToParentMessage)
    (payloadJson : JsString) :
    (receiveLog codec active message payloadJson).lease = active.lease ∧
      (receiveLog codec active message payloadJson).slot = active.slot ∧
      (receiveLog codec active message payloadJson).child = active.child ∧
      (receiveLog codec active message payloadJson).outcome =
        active.outcome := by
  unfold receiveLog
  split
  · exact ⟨rfl, rfl, rfl, rfl⟩
  · split
    · exact ⟨rfl, rfl, rfl, rfl⟩
    · split
      · exact ⟨rfl, rfl, rfl, rfl⟩
      · split
        · exact ⟨rfl, rfl, rfl, rfl⟩
        · exact appendLog_kept active _

theorem Contained.startHostCall (hsound : Sound concurrency pool reports)
    {slot child run : ℕ} (hactive : (pool.slots slot).active = some run)
    (hchild : (pool.slots slot).child = some child) (callId : ℕ)
    (payloadJson : JsString) :
    Contained concurrency reports slot pool
      (pool.startHostCall codec slot child run callId payloadJson) [] := by
  have hrun := hsound.active slot run hactive
  refine ⟨?_, fun _ _ => ⟨le_rfl, fun _ _ _ => rfl, fun _ _ hidle => hidle⟩⟩
  rw [List.append_nil]
  refine ⟨hsound.slots, fun other another hother => ?_, hsound.starting,
    hsound.unexecuted, hsound.homes, hsound.current, hsound.fresh,
    hsound.settled, hsound.started, fun call hcall => ?_, hsound.bounded⟩
  · have hkept := hsound.active other another hother
    exact ⟨hkept.child, hkept.ready, hkept.home, hkept.unsettled, hkept.lease,
      hkept.leaseSlot, hkept.phase, hkept.issued⟩
  · rcases Nat.lt_succ_iff_lt_or_eq.mp hcall with hold | rfl
    · simpa [Pool.startHostCall, hold.ne] using hsound.calls call hold
    · have hsame : child = (pool.runs run).child :=
        Option.some.inj (hchild.symm.trans hrun.child)
      simpa [Pool.startHostCall] using ⟨hrun.issued, hrun.home.symm, hsame⟩

theorem Sound.resolveActive (hsound : Sound concurrency pool reports)
    (slot : ℕ) (outcome : ExecuteResult) :
    Contained concurrency reports slot pool (pool.resolveActive slot outcome).1
        (pool.resolveActive slot outcome).2 ∧
      ((pool.resolveActive slot outcome).1.slots slot).active = none := by
  unfold Pool.resolveActive
  split
  · rename_i hidle
    exact ⟨.quiet hsound (.refl pool), hidle⟩
  · rename_i run hactive
    obtain ⟨hsettled, hidle⟩ := hsound.settleActive hactive _
    exact ⟨⟨hsettled, fun _ hslot => untouched_settleActive hactive hslot _⟩,
      hidle⟩

theorem Contained.receiveResult (hsound : Sound concurrency pool reports)
    {slot run : ℕ} (hactive : (pool.slots slot).active = some run)
    (message : ChildToParentMessage) (chunk : Bool) (payloadJson : JsString) :
    Contained concurrency reports slot pool
      (pool.receiveResult codec slot run message chunk payloadJson).1
      (pool.receiveResult codec slot run message chunk payloadJson).2 := by
  unfold Pool.receiveResult
  dsimp only
  split
  · exact .rejectAndRecycle hsound _ _
  · split
    · exact .rejectAndRecycle hsound _ _
    · rename_i hbytes
      rw [not_lt] at hbytes
      split
      · exact .rejectAndRecycle hsound _ _
      · have hbounded := hsound.bounded run
        have haccepted : ∀ chunks : List JsString, Bounded { pool.runs run with
            resultBytes := (pool.runs run).resultBytes +
              serializedBytes payloadJson
            resultChunks := chunks } := fun chunks =>
          ⟨hbounded.logChars, hbytes, hbounded.logs⟩
        have hset : ∀ chunks : List JsString,
            Contained concurrency reports slot pool (pool.setRun run
              { pool.runs run with
                resultBytes := (pool.runs run).resultBytes +
                  serializedBytes payloadJson
                resultChunks := chunks }) [] := fun chunks =>
          .setRun hsound hactive rfl rfl rfl rfl (haccepted chunks)
        split
        · exact hset _
        · split
          · exact (hset _).after fun hlater => .rejectAndRecycle hlater _ _
          · exact (hset _).after fun hlater =>
              (Contained.quiet hlater (quiet_endStreak _ slot)).after
                fun hended => .rejectAndRecycle hended _ _
          · rename_i payload _
            refine (hset []).after fun hlater =>
              (Contained.quiet hlater (quiet_endStreak _ slot)).after
                fun hended => ?_
            obtain ⟨hresolved, hidle⟩ :=
              hended.resolveActive slot payload.outcome
            split
            · have hquiet := hresolved.sound.quiet_recycle hidle
              exact ⟨hresolved.sound.quiet hquiet, fun slots hslot =>
                (hresolved.untouched slots hslot).trans
                  hquiet.effect.toUntouched⟩
            · exact hresolved

/-! ### Whom a message reaches -/

/-- The run a message names. -/
def jobId : ChildToParentMessage → Option ℕ
  | .malformed | .ready => none
  | .log jobId _ => some jobId
  | .hostCall jobId _ _ => some jobId
  | .resultChunk jobId _ => some jobId
  | .result jobId _ => some jobId

/-- The message comes from its slot's current child and names the run there. -/
structure Addressed (pool : Pool) (child : ℕ) (message : ChildToParentMessage)
    (run : ℕ) : Prop where
  jobId : jobId message = some run
  current : (pool.slots (pool.children child).slot).child = some child
  active : (pool.slots (pool.children child).slot).active = some run

/-- A block that brings a message to the run it is addressed to. -/
structure Received (concurrency : ℕ) (reports : List Report) (child : ℕ)
    (message : ChildToParentMessage) (run : ℕ) (pool later : Pool)
    (emitted : List Report) : Prop extends
    Contained concurrency reports (pool.children child).slot pool later
      emitted where
  addressed : Addressed pool child message run
  calls : ∀ call, pool.nextCall ≤ call → call < later.nextCall →
    (later.calls call).run = run

theorem rejectAndRecycle_nextCall (pool : Pool) (slot : ℕ) (error : RunError) :
    (pool.rejectAndRecycle slot error).1.nextCall = pool.nextCall := by
  have hrejected : (pool.rejectActive slot error).1.nextCall =
      pool.nextCall := by
    unfold Pool.rejectActive
    split <;> rfl
  unfold Pool.rejectAndRecycle
  dsimp only
  unfold Pool.recycle Pool.retire
  split
  · exact hrejected
  · split <;> exact hrejected

theorem receiveResult_nextCall (pool : Pool) (slot run : ℕ)
    (message : ChildToParentMessage) (chunk : Bool) (payloadJson : JsString) :
    (pool.receiveResult codec slot run message chunk payloadJson).1.nextCall =
      pool.nextCall := by
  have hresolved : ∀ (before : Pool) (outcome : ExecuteResult),
      (before.resolveActive slot outcome).1.nextCall = before.nextCall := by
    intro before outcome
    unfold Pool.resolveActive
    split <;> rfl
  have hrecycled : ∀ before : Pool,
      (before.recycle slot).nextCall = before.nextCall := by
    intro before
    unfold Pool.recycle Pool.retire
    split
    · rfl
    · split <;> rfl
  unfold Pool.receiveResult
  dsimp only
  split
  · exact rejectAndRecycle_nextCall _ _ _
  · split
    · exact rejectAndRecycle_nextCall _ _ _
    · split
      · exact rejectAndRecycle_nextCall _ _ _
      · split
        · rfl
        · split
          · exact rejectAndRecycle_nextCall _ _ _
          · exact rejectAndRecycle_nextCall _ _ _
          · split
            · exact (hrecycled _).trans (hresolved _ _)
            · exact hresolved _ _

/-- A message is dropped, reports its child ready, or reaches the run it is
addressed to. -/
theorem onMessage_cases (hsound : Sound concurrency pool reports) (child : ℕ)
    (message : ChildToParentMessage) :
    (Quiet pool (pool.onMessage codec child message).1 ∧
        (pool.onMessage codec child message).2 = []) ∨
      ∃ run, Received concurrency reports child message run pool
        (pool.onMessage codec child message).1
        (pool.onMessage codec child message).2 := by
  have hdropped : Quiet pool pool ∧ ([] : List Report) = [] := ⟨.refl pool, rfl⟩
  have hresult : ∀ chunk payloadJson run,
      Addressed pool child message run →
        Received concurrency reports child message run pool
          (pool.receiveResult codec (pool.children child).slot run message
            chunk payloadJson).1
          (pool.receiveResult codec (pool.children child).slot run message
            chunk payloadJson).2 := by
    intro chunk payloadJson run haddressed
    refine ⟨.receiveResult hsound haddressed.active _ _ _, haddressed,
      fun call hold hnew => ?_⟩
    rw [receiveResult_nextCall] at hnew
    exact absurd hnew (not_lt.mpr hold)
  unfold Pool.onMessage
  dsimp only
  split
  · exact .inl hdropped
  · left
    split
    · exact ⟨quiet_setChild _ _ _ rfl (fun _ _ => id)
        fun _ hready => Settlement.settle_outcome hready _, rfl⟩
    · exact hdropped
  · split
    · exact .inl hdropped
    · rename_i run hactive
      split
      · exact .inl hdropped
      · rename_i hcurrent
        rw [not_not] at hcurrent
        split
        · rename_i named payloadJson _ _
          split
          · exact .inl hdropped
          · rename_i hnamed
            rw [not_not] at hnamed
            obtain ⟨hlease, hslot, hchild, houtcome⟩ := receiveLog_kept
              (pool.runs run) (.log named payloadJson)
              payloadJson
            refine .inr ⟨run, .setRun hsound hactive hlease hslot hchild
              houtcome (bounded_receiveLog (hsound.bounded run) _ _),
              ⟨congrArg some hnamed, hcurrent, hactive⟩,
              fun call hold hnew => absurd hnew (not_lt.mpr hold)⟩
        · rename_i named callId payloadJson _ _
          split
          · exact .inl hdropped
          · rename_i hnamed
            rw [not_not] at hnamed
            refine .inr ⟨run, .startHostCall hsound hactive hcurrent _ _,
              ⟨congrArg some hnamed, hcurrent, hactive⟩,
              fun call hold hnew => ?_⟩
            have hlast : call = pool.nextCall :=
              le_antisymm (Nat.lt_succ_iff.mp hnew) hold
            simp [Pool.startHostCall, hlast]
        · split
          · exact .inl hdropped
          · rename_i hnamed
            rw [not_not] at hnamed
            exact .inr ⟨run, hresult _ _ _
              ⟨congrArg some hnamed, hcurrent, hactive⟩⟩
        · split
          · exact .inl hdropped
          · rename_i hnamed
            rw [not_not] at hnamed
            exact .inr ⟨run, hresult _ _ _
              ⟨congrArg some hnamed, hcurrent, hactive⟩⟩
        · exact .inl hdropped

/-! ## One step -/

/-- Every step is a block that brings nothing from a child, or a message to the
run it is addressed to. -/
theorem step_cases (hsound : Sound concurrency pool reports) {event : Event}
    {later : Pool} {emitted : List Report}
    (hstep : step concurrency codec pool event = some (later, emitted)) :
    Safe concurrency reports pool later emitted ∨
      ∃ child message run, event = .message child message ∧
        Received concurrency reports child message run pool later emitted := by
  cases event with
  | clock now =>
      obtain ⟨rfl, rfl⟩ := Prod.mk.inj (Option.some.inj hstep)
      exact .inl (.quiet hsound ⟨rfl, rfl, rfl, rfl, rfl, rfl, rfl, rfl,
        fun _ => rfl, fun _ _ => id, fun _ _ _ => rfl, fun _ => rfl,
        fun _ _ _ => id, fun _ _ => id⟩)
  | acquire =>
      obtain ⟨rfl, rfl⟩ := Prod.mk.inj (Option.some.inj hstep)
      refine .inl ⟨?_, effect_acquire pool⟩
      rw [List.append_nil]
      exact hsound.acquire
  | execute lease providers spawned =>
      obtain ⟨hissued, hmove⟩ := Option.ite_none_right_eq_some.mp hstep
      obtain ⟨rfl, rfl⟩ := Prod.mk.inj (Option.some.inj hmove)
      exact .inl (.execute hsound hissued providers spawned)
  | restart lease spawned =>
      obtain ⟨⟨hissued, hopen, hphase⟩, hmove⟩ :=
        Option.ite_none_right_eq_some.mp hstep
      obtain ⟨rfl, rfl⟩ := Prod.mk.inj (Option.some.inj hmove)
      have hlease := mem_unreleased.mpr ⟨hissued, hopen⟩
      have hwaiting : Waiting pool lease := by
        refine ⟨hlease, hsound.executed hlease ?_, fun run => ?_⟩
        · rw [hphase]
          simp
        · rw [hphase]
          simp
      exact .inl (hwaiting.startChild hsound spawned)
  | proceed lease fits sent =>
      obtain ⟨⟨hissued, hopen⟩, hmove⟩ :=
        Option.ite_none_right_eq_some.mp hstep
      split at hmove
      · rename_i child hphase
        obtain ⟨ready, hready, hmove⟩ := Option.map_eq_some_iff.mp hmove
        have hsafe := Safe.proceed hsound
          (mem_unreleased.mpr ⟨hissued, hopen⟩) hphase hready fits sent
        rw [hmove] at hsafe
        exact .inl hsafe
      · cases hmove
  | hear lease =>
      obtain ⟨⟨hissued, hopen⟩, hmove⟩ :=
        Option.ite_none_right_eq_some.mp hstep
      split at hmove
      · rename_i run hphase
        obtain ⟨exit, hexit, hmove⟩ := Option.map_eq_some_iff.mp hmove
        obtain ⟨rfl, rfl⟩ := Prod.mk.inj hmove
        exact .inl (.hear hsound (mem_unreleased.mpr ⟨hissued, hopen⟩) hphase
          hexit)
      · cases hmove
  | deadline lease =>
      obtain ⟨-, hmove⟩ := Option.ite_none_right_eq_some.mp hstep
      split at hmove
      · have hsafe := Safe.endWith hsound ‹ℕ› timedOut
        rw [Option.some.inj hmove] at hsafe
        exact .inl hsafe
      · cases hmove
  | abort lease =>
      obtain ⟨⟨hissued, hopen⟩, hmove⟩ :=
        Option.ite_none_right_eq_some.mp hstep
      have hsafe := Safe.abort hsound (mem_unreleased.mpr ⟨hissued, hopen⟩)
      rw [Option.some.inj hmove] at hsafe
      exact .inl hsafe
  | interrupt lease =>
      obtain ⟨⟨hissued, hopen⟩, hmove⟩ :=
        Option.ite_none_right_eq_some.mp hstep
      have hsafe := Safe.interrupt hsound (mem_unreleased.mpr ⟨hissued, hopen⟩)
      rw [Option.some.inj hmove] at hsafe
      exact .inl hsafe
  | release lease =>
      obtain ⟨hissued, hmove⟩ := Option.ite_none_right_eq_some.mp hstep
      obtain ⟨hreleased, heffect⟩ := hsound.release hissued
      rw [Option.some.inj hmove] at hreleased heffect
      exact .inl ⟨hreleased, heffect⟩
  | message child message =>
      obtain ⟨-, hmove⟩ := Option.ite_none_right_eq_some.mp hstep
      have hcases := @onMessage_cases _ _ _ codec hsound child message
      rw [Option.some.inj hmove] at hcases
      rcases hcases with ⟨hquiet, rfl⟩ | ⟨run, hreceived⟩
      · exact .inl (.quiet hsound hquiet)
      · exact .inr ⟨child, message, run, rfl, hreceived⟩
  | stderr child chunk =>
      obtain ⟨-, hmove⟩ := Option.ite_none_right_eq_some.mp hstep
      obtain ⟨rfl, rfl⟩ := Prod.mk.inj (Option.some.inj hmove)
      exact .inl (.quiet hsound
        (quiet_setChild _ _ _ rfl (fun _ _ => id) fun _ => id))
  | disconnect child =>
      obtain ⟨-, hmove⟩ := Option.ite_none_right_eq_some.mp hstep
      obtain ⟨rfl, rfl⟩ := Prod.mk.inj (Option.some.inj hmove)
      exact .inl (.quiet hsound
        (quiet_setChild _ _ _ rfl (fun _ _ => id) fun _ => id))
  | error child error =>
      obtain ⟨-, hmove⟩ := Option.ite_none_right_eq_some.mp hstep
      have hsafe := Safe.onError hsound child error
      rw [Option.some.inj hmove] at hsafe
      exact .inl hsafe
  | exit child =>
      obtain ⟨-, hmove⟩ := Option.ite_none_right_eq_some.mp hstep
      obtain ⟨rfl, rfl⟩ := Prod.mk.inj (Option.some.inj hmove)
      exact .inl (.quiet hsound
        (quiet_setChild _ _ _ rfl (fun _ _ => id) fun _ => id))
  | close child exit =>
      obtain ⟨-, hmove⟩ := Option.ite_none_right_eq_some.mp hstep
      have hsafe := Safe.onClose hsound child exit
      rw [Option.some.inj hmove] at hsafe
      exact .inl hsafe
  | watchdog child =>
      obtain ⟨-, hmove⟩ := Option.ite_none_right_eq_some.mp hstep
      obtain ⟨rfl, rfl⟩ := Prod.mk.inj (Option.some.inj hmove)
      exact .inl (.quiet hsound (hsound.quiet_failChildStartup _ _ _))
  | sendFailed run error =>
      obtain ⟨-, hmove⟩ := Option.ite_none_right_eq_some.mp hstep
      have hsafe := Safe.endWith hsound run error
      rw [Option.some.inj hmove] at hsafe
      exact .inl hsafe
  | answer call payload sent =>
      obtain ⟨-, hmove⟩ := Option.ite_none_right_eq_some.mp hstep
      have hsafe := Safe.answer hsound call payload sent
      rw [Option.some.inj hmove] at hsafe
      exact .inl hsafe
  | shutdown =>
      have hsafe := Safe.close hsound
      rw [show pool.close concurrency = (later, emitted) from
        Option.some.inj hstep] at hsafe
      exact .inl hsafe

/-! ## Who is answered -/

/-- No host call is answered. -/
def Silent (emitted : List Report) : Prop :=
  ∀ child run callId payload, .answered child run callId payload ∉ emitted

theorem silent_nil : Silent [] := fun _ _ _ _ => List.not_mem_nil

theorem silent_settleActive (pool : Pool) (slot run : ℕ) (exit : RunExit) :
    Silent (pool.settleActive slot run exit).2 := by
  unfold Pool.settleActive
  dsimp only
  split
  · exact fun _ _ _ _ hmem => by cases List.mem_singleton.mp hmem
  · exact silent_nil

theorem silent_rejectActive (pool : Pool) (slot : ℕ) (error : RunError) :
    Silent (pool.rejectActive slot error).2 := by
  unfold Pool.rejectActive
  split
  · exact silent_nil
  · exact silent_settleActive _ _ _ _

theorem silent_resolveActive (pool : Pool) (slot : ℕ) (outcome : ExecuteResult) :
    Silent (pool.resolveActive slot outcome).2 := by
  unfold Pool.resolveActive
  split
  · exact silent_nil
  · exact silent_settleActive _ _ _ _

theorem silent_rejectAndRecycle (pool : Pool) (slot : ℕ) (error : RunError) :
    Silent (pool.rejectAndRecycle slot error).2 :=
  silent_rejectActive pool slot error

theorem silent_stopSlots (slots : List ℕ) (pool : Pool) :
    Silent (Pool.stopSlots slots pool).2 := by
  induction slots generalizing pool with
  | nil => exact silent_nil
  | cons slot rest ih =>
      intro child run callId payload hmem
      rcases List.mem_append.mp hmem with hfirst | hlater
      · change _ ∈ (pool.stopSlot slot).2 at hfirst
        unfold Pool.stopSlot at hfirst
        split at hfirst
        · exact absurd hfirst List.not_mem_nil
        · exact silent_rejectActive pool slot shuttingDown child run callId
            payload hfirst
      · exact ih _ child run callId payload hlater

theorem silent_endWith (pool : Pool) (run : ℕ) (error : RunError) :
    Silent (pool.endWith run error).2 := by
  unfold Pool.endWith
  dsimp only
  split
  · exact silent_rejectAndRecycle _ _ _
  · exact silent_nil

theorem silent_release (pool : Pool) (lease : ℕ) :
    Silent (pool.release lease).2 := by
  unfold Pool.release
  dsimp only
  split
  · exact silent_nil
  · split
    · exact silent_rejectAndRecycle _ _ _
    · exact silent_nil

theorem silent_proceed (pool : Pool) (lease : ℕ) (ready : Except RunError Unit)
    (fits sent : Bool) : Silent (pool.proceed lease ready fits sent).2 := by
  unfold Pool.proceed
  dsimp only
  split
  · exact silent_nil
  · split
    · exact silent_nil
    · split
      · exact silent_nil
      · split
        · exact silent_nil
        · split
          · exact silent_nil
          · split
            · exact fun _ _ _ _ hmem => by cases List.mem_singleton.mp hmem
            · exact silent_rejectAndRecycle _ _ _

theorem silent_abort (pool : Pool) (lease : ℕ) :
    Silent (pool.abort lease).2 := by
  unfold Pool.abort
  dsimp only
  split
  · exact silent_nil
  · split <;> exact silent_nil
  · exact silent_endWith _ _ _
  · exact silent_nil

theorem silent_interrupt (pool : Pool) (lease : ℕ) :
    Silent (pool.interrupt lease).2 := by
  unfold Pool.interrupt
  dsimp only
  split
  · exact silent_nil
  · exact silent_nil
  · exact silent_endWith _ _ _
  · exact silent_nil

theorem silent_onError (pool : Pool) (child : ℕ) (error : RunError) :
    Silent (pool.onError child error).2 := by
  unfold Pool.onError
  dsimp only
  split
  · exact silent_nil
  · split
    · exact silent_nil
    · exact silent_rejectAndRecycle _ _ _

theorem silent_onClose (pool : Pool) (child : ℕ) (exit : String) :
    Silent (pool.onClose child exit).2 := by
  unfold Pool.onClose
  dsimp only
  split
  · exact silent_nil
  · exact silent_rejectActive _ _ _

theorem silent_receiveResult (pool : Pool) (slot run : ℕ)
    (message : ChildToParentMessage) (chunk : Bool) (payloadJson : JsString) :
    Silent (pool.receiveResult codec slot run message chunk payloadJson).2 := by
  unfold Pool.receiveResult
  dsimp only
  split
  · exact silent_rejectAndRecycle _ _ _
  · split
    · exact silent_rejectAndRecycle _ _ _
    · split
      · exact silent_rejectAndRecycle _ _ _
      · split
        · exact silent_nil
        · split
          · exact silent_rejectAndRecycle _ _ _
          · exact silent_rejectAndRecycle _ _ _
          · exact silent_resolveActive _ _ _

theorem silent_onMessage (pool : Pool) (child : ℕ)
    (message : ChildToParentMessage) :
    Silent (pool.onMessage codec child message).2 := by
  unfold Pool.onMessage
  dsimp only
  split
  · exact silent_nil
  · split <;> exact silent_nil
  · split
    · exact silent_nil
    · split
      · exact silent_nil
      · split
        · split <;> exact silent_nil
        · split <;> exact silent_nil
        · split
          · exact silent_nil
          · exact silent_receiveResult _ _ _ _ _ _
        · split
          · exact silent_nil
          · exact silent_receiveResult _ _ _ _ _ _
        · exact silent_nil

/-- Only a host call's own fiber answers, and it looks at the slot first. -/
theorem answered_active {event : Event} {later : Pool} {emitted : List Report}
    (hstep : step concurrency codec pool event = some (later, emitted))
    {child run callId : ℕ} {payload : HostResultPayload}
    (hmem : .answered child run callId payload ∈ emitted) :
    ∃ call < pool.nextCall, (pool.calls call).run = run ∧
      (pool.calls call).child = child ∧
      (pool.calls call).callId = callId ∧
      (pool.children child).connected = true ∧
      (pool.slots (pool.calls call).slot).active = some run := by
  have hquiet : ∀ {before : Pool × List Report}, Silent before.2 →
      before = (later, emitted) → False := fun hsilent hmove => by
    rw [hmove] at hsilent
    exact hsilent child run callId payload hmem
  cases event with
  | answer call given sent =>
      obtain ⟨⟨hissued, -⟩, hmove⟩ := Option.ite_none_right_eq_some.mp hstep
      have hanswer := Option.some.inj hmove
      unfold Pool.answer at hanswer
      dsimp only at hanswer
      split at hanswer
      · rename_i hopen
        split at hanswer
        · obtain ⟨-, rfl⟩ := Prod.mk.inj hanswer
          obtain ⟨rfl, rfl, rfl, -⟩ :=
            Report.answered.inj (List.mem_singleton.mp hmem)
          exact ⟨call, hissued, rfl, rfl, rfl, hopen⟩
        · exact (hquiet (silent_rejectAndRecycle _ _ _) hanswer).elim
      · exact (hquiet silent_nil hanswer).elim
  | clock | acquire => exact (hquiet silent_nil (Option.some.inj hstep)).elim
  | execute | restart | stderr | disconnect | exit | watchdog =>
      obtain ⟨-, hmove⟩ := Option.ite_none_right_eq_some.mp hstep
      exact (hquiet silent_nil (Option.some.inj hmove)).elim
  | proceed =>
      obtain ⟨-, hmove⟩ := Option.ite_none_right_eq_some.mp hstep
      split at hmove
      · obtain ⟨_, -, hmove⟩ := Option.map_eq_some_iff.mp hmove
        exact (hquiet (silent_proceed _ _ _ _ _) hmove).elim
      · cases hmove
  | hear =>
      obtain ⟨-, hmove⟩ := Option.ite_none_right_eq_some.mp hstep
      split at hmove
      · obtain ⟨_, -, hmove⟩ := Option.map_eq_some_iff.mp hmove
        exact (hquiet silent_nil hmove).elim
      · cases hmove
  | deadline =>
      obtain ⟨-, hmove⟩ := Option.ite_none_right_eq_some.mp hstep
      split at hmove
      · exact (hquiet (silent_endWith _ _ _) (Option.some.inj hmove)).elim
      · cases hmove
  | abort =>
      obtain ⟨-, hmove⟩ := Option.ite_none_right_eq_some.mp hstep
      exact (hquiet (silent_abort _ _) (Option.some.inj hmove)).elim
  | interrupt =>
      obtain ⟨-, hmove⟩ := Option.ite_none_right_eq_some.mp hstep
      exact (hquiet (silent_interrupt _ _) (Option.some.inj hmove)).elim
  | release =>
      obtain ⟨-, hmove⟩ := Option.ite_none_right_eq_some.mp hstep
      exact (hquiet (silent_release _ _) (Option.some.inj hmove)).elim
  | message =>
      obtain ⟨-, hmove⟩ := Option.ite_none_right_eq_some.mp hstep
      exact (hquiet (silent_onMessage _ _ _) (Option.some.inj hmove)).elim
  | error =>
      obtain ⟨-, hmove⟩ := Option.ite_none_right_eq_some.mp hstep
      exact (hquiet (silent_onError _ _ _) (Option.some.inj hmove)).elim
  | close =>
      obtain ⟨-, hmove⟩ := Option.ite_none_right_eq_some.mp hstep
      exact (hquiet (silent_onClose _ _ _) (Option.some.inj hmove)).elim
  | sendFailed =>
      obtain ⟨-, hmove⟩ := Option.ite_none_right_eq_some.mp hstep
      exact (hquiet (silent_endWith _ _ _) (Option.some.inj hmove)).elim
  | shutdown =>
      have hclosed : Silent (pool.close concurrency).2 := by
        unfold Pool.close
        split
        · exact silent_nil
        · exact silent_stopSlots _ _
      exact (hquiet hclosed (Option.some.inj hstep)).elim

/-! ## Every run -/

theorem Sound.init (concurrency : ℕ) :
    Sound concurrency { available := List.range concurrency } [] where
  slots := by simp [unreleased]
  active _ _ hactive := by cases hactive
  starting _ hlease := by simp [unreleased] at hlease
  unexecuted _ hlease := by simp [unreleased] at hlease
  homes _ _ hchild := by cases hchild
  current _ _ hchild := by cases hchild
  fresh _ _ := rfl
  settled _ := rfl
  started _ _ hmem := absurd hmem List.not_mem_nil
  calls _ hcall := absurd hcall (Nat.not_lt_zero _)
  bounded _ := bounded_empty rfl rfl rfl

theorem Sound.run (hrun : (machine concurrency codec).Run pool reports) :
    Sound concurrency pool reports := by
  refine hrun.invariant (motive := Sound concurrency) (fun state hinit => ?_)
    fun state outputs event later emitted hstate hmove => ?_
  · obtain rfl := hinit
    exact .init concurrency
  · rcases step_cases hstate hmove with
      hsafe | ⟨child, message, run, -, hreceived⟩
    · exact hsafe.sound
    · exact hreceived.sound

/-- A run that is over, or whose lease is gone, is active nowhere. -/
theorem Sound.over (hsound : Sound concurrency pool reports) {run : ℕ}
    (hover : (pool.runs run).outcome.outcome ≠ none ∨
      (pool.leases (pool.runs run).lease).released = true) (slot : ℕ) :
    (pool.slots slot).active ≠ some run := by
  intro hactive
  have hkept := hsound.active slot run hactive
  rcases hover with hsettled | hreleased
  · exact hsettled hkept.unsettled
  · rw [(mem_unreleased.mp hkept.lease).2] at hreleased
    cases hreleased

/-- The step brought something a child sent to a run that was already there: a
log or a part of a result, a host call, or the result. -/
def Delivered (pool later : Pool) (run : ℕ) : Prop :=
  received (later.runs run) ≠ received (pool.runs run) ∨
    (∃ call, pool.nextCall ≤ call ∧ call < later.nextCall ∧
      (later.calls call).run = run) ∨
    ∃ result, (later.runs run).outcome.outcome = some (.ok result) ∧
      (pool.runs run).outcome.outcome ≠ some (.ok result)

theorem Effect.not_delivered {later : Pool}
    (heffect : Effect Set.univ pool later) {run : ℕ}
    (hrun : run < pool.nextJobId) : ¬ Delivered pool later run := by
  rintro (hreceived | ⟨call, hold, hnew, -⟩ | ⟨result, hafter, hbefore⟩)
  · exact hreceived (heffect.received run hrun)
  · rw [heffect.calls] at hnew
    exact absurd hnew (not_lt.mpr hold)
  · exact hbefore (heffect.results run hrun result hafter)

/-- A message changes the run it is addressed to and no other. -/
theorem Received.only {child run : ℕ} {message : ChildToParentMessage}
    {later : Pool} {emitted : List Report}
    (hreceived : Received concurrency reports child message run pool later
      emitted) {other : ℕ} (hother : other < pool.nextJobId)
    (hne : other ≠ run) : later.runs other = pool.runs other := by
  refine (hreceived.untouched {(pool.children child).slot} rfl).runs other
    hother fun slot hslot hactive => ?_
  obtain rfl := Set.mem_singleton_iff.mp hslot
  rw [hreceived.addressed.active] at hactive
  exact hne (Option.some.inj hactive).symm

end Pool

open Pool

/-- The pool keeps runs apart, in every state a run reaches and in every step
from there.  Slots are conserved; an active run is on the child it was sent to;
a run settles once and stays as it is once it is over; what a child sends
reaches only the run it is addressed to, and an answer goes only to the child of
an active run; what a run accepts is bounded. -/
theorem runs_apart (concurrency : ℕ) (codec : Codec) {pool : Pool}
    {reports : List Report}
    (hrun : (machine concurrency codec).Run pool reports) :
    (pool.available ++ pool.unreleased.map fun lease =>
        (pool.leases lease).slot).Perm (List.range concurrency) ∧
      (∀ slot run, (pool.slots slot).active = some run →
        (pool.slots slot).child = some (pool.runs run).child ∧
          (pool.runs run).slot = slot ∧
          (pool.leases (pool.runs run).lease).slot = slot ∧
          (pool.leases (pool.runs run).lease).released = false) ∧
      (∀ child run, .started child run ∈ reports →
        (pool.runs run).child = child) ∧
      (∀ run, reports.count (.settled run) =
        if (pool.runs run).outcome.outcome = none then 0 else 1) ∧
      (∀ run, (pool.runs run).logChars ≤ maxExecuteLogChars + 1 ∧
        transcript (pool.runs run).logs ≤
          maxExecuteLogChars + 1 + (truncatedMark.length + 1) ∧
        (pool.runs run).resultBytes ≤ maxQuickJsResultBytes) ∧
      ∀ event later emitted,
        step concurrency codec pool event = some (later, emitted) →
          (∀ run < pool.nextJobId, (pool.runs run).outcome.outcome ≠ none ∨
            (pool.leases (pool.runs run).lease).released = true →
              later.runs run = pool.runs run) ∧
          (∀ run < pool.nextJobId, Delivered pool later run →
            ∃ child message, event = .message child message ∧
              Addressed pool child message run) ∧
          (∀ child message, event = .message child message →
            ∀ run < pool.nextJobId, later.runs run ≠ pool.runs run →
              Addressed pool child message run) ∧
          ∀ child run callId payload,
            .answered child run callId payload ∈ emitted →
              (pool.slots (pool.runs run).slot).active = some run ∧
                (pool.slots (pool.runs run).slot).child = some child ∧
                (pool.children child).connected = true := by
  have hsound := Sound.run hrun
  refine ⟨hsound.slots, fun slot run hactive => ?_,
    fun child run hmem => (hsound.started child run hmem).2, hsound.settled,
    fun run => ⟨(hsound.bounded run).logChars, ?_, (hsound.bounded run).resultBytes⟩,
    fun event later emitted hstep => ⟨fun run hissued hover => ?_,
      fun run hissued hdelivered => ?_, ?_, ?_⟩⟩
  · have hkept := hsound.active slot run hactive
    exact ⟨hkept.child, hkept.home, hkept.leaseSlot,
      (mem_unreleased.mp hkept.lease).2⟩
  · have hchars := (hsound.bounded run).logChars
    rcases (hsound.bounded run).logs with hlogs | ⟨-, hlogs⟩ <;> omega
  · have huntouched : Untouched Set.univ pool later := by
      rcases step_cases hsound hstep with
        hsafe | ⟨child, message, other, -, hreceived⟩
      · exact hsafe.effect.toUntouched
      · exact hreceived.untouched Set.univ (Set.mem_univ _)
    exact huntouched.runs run hissued fun slot _ => hsound.over hover slot
  · rcases step_cases hsound hstep with
      hsafe | ⟨child, message, other, hevent, hreceived⟩
    · exact absurd hdelivered (hsafe.effect.not_delivered hissued)
    · refine ⟨child, message, hevent, ?_⟩
      by_cases hsame : run = other
      · exact hsame ▸ hreceived.addressed
      · have hkept := hreceived.only hissued hsame
        rcases hdelivered with hchanged | ⟨call, hold, hnew, hcall⟩ |
          ⟨result, hafter, hbefore⟩
        · rw [hkept] at hchanged
          exact absurd rfl hchanged
        · exact absurd (hcall.symm.trans (hreceived.calls call hold hnew)) hsame
        · rw [hkept] at hafter
          exact absurd hafter hbefore
  · rintro child message rfl run hissued hchanged
    obtain ⟨-, hmove⟩ := Option.ite_none_right_eq_some.mp hstep
    have hcases := @onMessage_cases _ _ _ codec hsound child message
    rw [Option.some.inj hmove] at hcases
    rcases hcases with ⟨hquiet, -⟩ | ⟨other, hreceived⟩
    · exact absurd (congrFun hquiet.runs run) hchanged
    · by_cases hsame : run = other
      · exact hsame ▸ hreceived.addressed
      · exact absurd (hreceived.only hissued hsame) hchanged
  · intro child run callId payload hmem
    obtain ⟨call, hissued, rfl, rfl, rfl, hconnected, hactive⟩ :=
      answered_active hstep hmem
    have hkept := hsound.active _ _ hactive
    rw [(hsound.calls call hissued).2.1] at hactive
    refine ⟨hactive, ?_, hconnected⟩
    rw [hkept.home, hkept.child, (hsound.calls call hissued).2.2]

/-- A child that logs, calls a tool and answers; the lease is released and the
child goes on talking. -/
theorem runs_apart_exchange :
    let codec : Codec :=
      { logEntry := some
        execution := fun json => .payload { outcome := { value := json } }
        hostCall := fun json => some ⟨"tools", "list", json⟩
        envelopeFits := fun _ => true }
    let text := JsString.ofAscii
    let exchange : List Event :=
      [.acquire, .execute 0 [("tools", ["list"])] true, .message 0 .ready,
        .proceed 0 true true, .message 0 (.log 1 (text "hi")),
        .message 0 (.hostCall 1 7 (text "{}")),
        .answer 0 (.value (text "[]")) true,
        .message 0 (.result 1 (text "42")), .hear 0, .release 0]
    let late : ChildToParentMessage := .log 1 (text "late")
    ∃ pool reports,
      (machine 1 codec).execute { available := List.range 1 } exchange =
          some (pool, reports) ∧
        reports = [.started 0 1, .answered 0 1 7 (.value (text "[]")),
          .settled 1] ∧
        (pool.runs 1).logs = [text "hi"] ∧ pool.available = [0] ∧
        ∃ later emitted,
          step 1 codec pool (.message 0 late) = some (later, emitted) ∧
            later.runs 1 = pool.runs 1 := by
  intro codec text exchange late
  obtain ⟨pool, reports, hexecute, hreports, hlogs, havailable, hreleased,
      later, emitted, hlate⟩ :
      ∃ pool reports,
        (machine 1 codec).execute { available := List.range 1 } exchange =
            some (pool, reports) ∧
          reports = [.started 0 1, .answered 0 1 7 (.value (text "[]")),
            .settled 1] ∧
          (pool.runs 1).logs = [text "hi"] ∧ pool.available = [0] ∧
          (1 < pool.nextJobId ∧
            (pool.leases (pool.runs 1).lease).released = true) ∧
          ∃ later emitted,
            step 1 codec pool (.message 0 late) = some (later, emitted) :=
    ⟨_, _, rfl, rfl, rfl, rfl, ⟨by decide, rfl⟩, _, _, rfl⟩
  have hstart : (machine 1 codec).Run { available := List.range 1 } [] :=
    .start rfl
  have hapart := runs_apart 1 codec (hstart.execute exchange hexecute)
  exact ⟨pool, reports, hexecute, hreports, hlogs, havailable, later, emitted,
    hlate, (hapart.2.2.2.2.2 _ later emitted hlate).1 1 hreleased.1
      (.inr hreleased.2)⟩

/-- Slots share neither children nor runs nor leases, and an active run is on a
child of its own slot that was not retired. -/
theorem slots_apart (concurrency : ℕ) (codec : Codec) {pool : Pool}
    {reports : List Report} (hrun : (machine concurrency codec).Run pool reports) :
    (∀ slot other child, (pool.slots slot).child = some child →
        (pool.slots other).child = some child → slot = other) ∧
      (∀ slot run, (pool.slots slot).active = some run →
        (pool.children (pool.runs run).child).slot = slot ∧
          (pool.children (pool.runs run).child).retired = false ∧
          ∀ other, (pool.slots other).active = some run → other = slot) ∧
      ∀ lease ∈ pool.unreleased, ∀ other ∈ pool.unreleased,
        (pool.leases lease).slot = (pool.leases other).slot → lease = other := by
  have hsound := Sound.run hrun
  refine ⟨fun slot other child hchild hother => ?_, fun slot run hactive => ?_,
    fun lease hlease other hother hslot => hsound.lease_unique hlease hother hslot⟩
  · rw [← (hsound.homes slot child hchild).1, (hsound.homes other child hother).1]
  · have hkept := hsound.active slot run hactive
    refine ⟨(hsound.homes slot _ hkept.child).1, hsound.current slot _ hkept.child, ?_⟩
    intro other hother
    rw [← (hsound.active other run hother).home, hkept.home]

/-- A run that was sent to its child. -/
theorem slots_apart_sent : ∃ pool : Pool, (pool.slots 0).active = some 1 ∧
    ∀ other, (pool.slots other).active = some 1 → other = 0 := by
  let codec : Codec :=
    ⟨some, fun _ => .threw, fun _ => none, fun _ => true⟩
  let events : List Event :=
    [.acquire, .execute 0 [] true, .message 0 .ready, .proceed 0 true true]
  have hstart : (machine 1 codec).Run { available := List.range 1 } [] := .start rfl
  have hrun := hstart.execute events rfl
  exact ⟨_, rfl, ((slots_apart 1 codec hrun).2.1 0 1 rfl).2.2⟩

end Connecta.QuickJs
