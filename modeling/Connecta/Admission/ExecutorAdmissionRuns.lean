import Connecta.Admission.ExecutorAdmission

/-!
# Slots are neither lost nor freed twice

Every block of the controller preserves `Sound`: the counter equals the number
of live leases and every bound holds.  The blocks that end by filling slots
also restore `Full`, so no waiter sits behind a free slot once a step is over.
-/

namespace Connecta.ExecutorAdmission

open Connecta.Transition
open Connecta.Runtime

namespace AdmissionController

variable {limits : Limits}

/-- The lease symbols still in the map. -/
def live (controller : AdmissionController) : List ℕ :=
  controller.leases.map Prod.fst

/-- What holds of the controller's bookkeeping inside every block as well. -/
structure Sound (limits : Limits) (controller : AdmissionController) : Prop where
  active_eq : controller.active = controller.live.length
  active_le : controller.active ≤ limits.concurrency
  queue_le : controller.waiters.length ≤ limits.maxQueueSize
  drained : controller.closed = true → controller.waiters = []
  issued : ∀ lease ∈ controller.live, lease < controller.nextLease
  nodup : controller.live.Nodup

/-- While the controller is open, a nonempty queue means no free slot. -/
def Full (limits : Limits) (controller : AdmissionController) : Prop :=
  controller.closed = false → controller.waiters ≠ [] →
    controller.active = limits.concurrency

/-! ## Frames -/

/-- Blocks that leave the counter, the leases and the closed flag alone. -/
structure SameSlots (before after : AdmissionController) : Prop where
  active : after.active = before.active
  leases : after.leases = before.leases
  closed : after.closed = before.closed
  nextLease : after.nextLease = before.nextLease

theorem SameSlots.refl (controller : AdmissionController) :
    SameSlots controller controller := ⟨rfl, rfl, rfl, rfl⟩

theorem SameSlots.trans {first second third : AdmissionController}
    (hleft : SameSlots first second) (hright : SameSlots second third) :
    SameSlots first third :=
  ⟨hright.active.trans hleft.active, hright.leases.trans hleft.leases,
    hright.closed.trans hleft.closed, hright.nextLease.trans hleft.nextLease⟩

theorem SameSlots.live {before after : AdmissionController}
    (hsame : SameSlots before after) : after.live = before.live := by
  rw [AdmissionController.live, AdmissionController.live, hsame.leases]

/-- Keeping the slots and only shortening the queue keeps `Sound`. -/
theorem Sound.shorten {before after : AdmissionController}
    (hsound : Sound limits before) (hsame : SameSlots before after)
    (hqueue : after.waiters.Sublist before.waiters) : Sound limits after where
  active_eq := by rw [hsame.active, hsame.live]; exact hsound.active_eq
  active_le := by rw [hsame.active]; exact hsound.active_le
  queue_le := hqueue.length_le.trans hsound.queue_le
  drained hclosed := by
    rw [hsame.closed] at hclosed
    have hempty := hsound.drained hclosed
    rw [hempty] at hqueue
    exact List.sublist_nil.mp hqueue
  issued := by rw [hsame.live, hsame.nextLease]; exact hsound.issued
  nodup := by rw [hsame.live]; exact hsound.nodup

theorem Full.shorten {before after : AdmissionController}
    (hfull : Full limits before) (hsame : SameSlots before after)
    (hqueue : after.waiters.Sublist before.waiters) : Full limits after := by
  intro hopen hwaiting
  rw [hsame.closed] at hopen
  rw [hsame.active]
  refine hfull hopen fun hempty => hwaiting ?_
  rw [hempty] at hqueue
  exact List.sublist_nil.mp hqueue

/-! ## The waiters leave -/

theorem reject_sameSlots (controller : AdmissionController) (waiter : Waiter) :
    SameSlots controller (controller.reject limits waiter) :=
  ⟨rfl, rfl, rfl, rfl⟩

theorem rejectAll_sameSlots (expired : List Waiter)
    (controller : AdmissionController) :
    SameSlots controller (expired.foldr
      (fun waiter controller => controller.reject limits waiter) controller) := by
  induction expired with
  | nil => exact .refl controller
  | cons waiter rest ih => exact ih.trans (reject_sameSlots _ waiter)

theorem prune_sameSlots (controller : AdmissionController) :
    SameSlots controller (controller.pruneExpiredWaiters limits) := by
  have hfold := @rejectAll_sameSlots limits
    (controller.waiters.filter (expiredWaiter limits controller.now)) controller
  exact ⟨hfold.active, hfold.leases, hfold.closed, hfold.nextLease⟩

theorem prune_waiters (controller : AdmissionController) :
    (controller.pruneExpiredWaiters limits).waiters.Sublist controller.waiters :=
  List.filter_sublist

theorem remove_some {controller later : AdmissionController} {waiter : ℕ}
    (hremove : controller.remove waiter = some later) :
    SameSlots controller later ∧ later.waiters.Sublist controller.waiters := by
  unfold remove at hremove
  split at hremove
  · obtain rfl := Option.some.inj hremove
    exact ⟨⟨rfl, rfl, rfl, rfl⟩, List.filter_sublist⟩
  · cases hremove

/-! ## Leases come and go -/

theorem makeLease_live (controller : AdmissionController) (waitMs : ℤ) :
    (makeLease limits controller waitMs).2.live =
      controller.live ++ [controller.nextLease] := by
  simp [makeLease, live]

theorem grant_live (controller : AdmissionController) (waiter : Waiter) :
    (controller.grant limits waiter).live =
      controller.live ++ [controller.nextLease] :=
  @makeLease_live limits controller 0

theorem Sound.lease {before after : AdmissionController}
    (hsound : Sound limits before) (hroom : before.active < limits.concurrency)
    (hactive : after.active = before.active + 1)
    (hlive : after.live = before.live ++ [before.nextLease])
    (hclosed : after.closed = before.closed)
    (hwaiters : after.waiters = before.waiters)
    (hnext : after.nextLease = before.nextLease + 1) : Sound limits after where
  active_eq := by
    rw [hactive, hlive, hsound.active_eq]
    simp
  active_le := by rw [hactive]; omega
  queue_le := by rw [hwaiters]; exact hsound.queue_le
  drained := by rw [hclosed, hwaiters]; exact hsound.drained
  issued := by
    intro lease hlease
    rw [hlive, List.mem_append, List.mem_singleton] at hlease
    rw [hnext]
    rcases hlease with hold | rfl
    · exact (hsound.issued lease hold).trans (Nat.lt_succ_self _)
    · exact Nat.lt_succ_self _
  nodup := by
    rw [hlive]
    refine List.Nodup.append hsound.nodup (List.nodup_singleton _) ?_
    intro lease hold hnew
    rw [List.mem_singleton] at hnew
    subst lease
    exact absurd (hsound.issued _ hold) (Nat.lt_irrefl _)

/-- The fill loop only ever runs over the queue, which it replaces. -/
theorem fillLoop_sound {controller : AdmissionController} (queue : List Waiter)
    (hqueue : queue.length ≤ limits.maxQueueSize)
    (hdrained : controller.closed = true → queue = [])
    (hsound : Sound limits { controller with waiters := [] }) :
    Sound limits (fillLoop limits queue controller) := by
  induction queue generalizing controller with
  | nil => exact hsound
  | cons waiter rest ih =>
      have hopen : controller.closed = false := by
        cases hclosed : controller.closed with
        | false => rfl
        | true => exact absurd (hdrained hclosed) (List.cons_ne_nil _ _)
      rw [fillLoop]
      split
      · rename_i hroom
        refine ih ((Nat.le_succ _).trans hqueue) ?_ ?_
        · intro hclosed
          change controller.closed = true at hclosed
          rw [hopen] at hclosed
          cases hclosed
        · exact hsound.lease hroom rfl (grant_live controller waiter) rfl rfl rfl
      · exact {
          active_eq := hsound.active_eq
          active_le := hsound.active_le
          queue_le := hqueue
          drained := fun hclosed => by
            change controller.closed = true at hclosed
            rw [hopen] at hclosed
            cases hclosed
          issued := hsound.issued
          nodup := hsound.nodup }

/-- The fill loop ends with the queue empty or every slot taken. -/
theorem fillLoop_full {controller : AdmissionController} (queue : List Waiter)
    (hactive : controller.active ≤ limits.concurrency) :
    Full limits (fillLoop limits queue controller) := by
  induction queue generalizing controller with
  | nil => intro _ hwaiting; exact absurd rfl hwaiting
  | cons waiter rest ih =>
      rw [fillLoop]
      split
      · rename_i hroom
        refine ih ?_
        change controller.active + 1 ≤ _
        omega
      · intro _ _
        change controller.active = _
        omega

theorem Sound.dropQueue {controller : AdmissionController}
    (hsound : Sound limits controller) :
    Sound limits { controller with waiters := [] } :=
  hsound.shorten ⟨rfl, rfl, rfl, rfl⟩ (List.nil_sublist _)

theorem Sound.prune {controller : AdmissionController}
    (hsound : Sound limits controller) :
    Sound limits (controller.pruneExpiredWaiters limits) :=
  hsound.shorten (prune_sameSlots controller) (prune_waiters controller)

theorem Sound.fillSlots {controller : AdmissionController}
    (hsound : Sound limits controller) :
    Sound limits (controller.fillSlots limits) :=
  fillLoop_sound _ hsound.prune.queue_le hsound.prune.drained
    hsound.prune.dropQueue

theorem Sound.fillSlots_full {controller : AdmissionController}
    (hsound : Sound limits controller) :
    Full limits (controller.fillSlots limits) :=
  fillLoop_full _ hsound.prune.active_le

/-! ## One block each -/

/-- What holds between any two blocks. -/
structure Settled (limits : Limits) (controller : AdmissionController) :
    Prop where
  sound : Sound limits controller
  full : Full limits controller

theorem Settled.shorten {before after : AdmissionController}
    (hsettled : Settled limits before) (hsame : SameSlots before after)
    (hqueue : after.waiters.Sublist before.waiters) : Settled limits after :=
  ⟨hsettled.sound.shorten hsame hqueue, hsettled.full.shorten hsame hqueue⟩

theorem Settled.ofClosed {controller : AdmissionController}
    (hsound : Sound limits controller) (hclosed : controller.closed = true) :
    Settled limits controller :=
  ⟨hsound, fun hopen => by rw [hclosed] at hopen; cases hopen⟩

/-- Blocks that end by filling slots unless the controller is closed. -/
theorem Sound.refill {controller : AdmissionController}
    (hsound : Sound limits controller) :
    Settled limits
      (if controller.closed then controller
        else controller.fillSlots limits) := by
  cases hclosed : controller.closed with
  | true => simpa using .ofClosed hsound hclosed
  | false => simpa using ⟨hsound.fillSlots, hsound.fillSlots_full⟩

theorem live_filter_ne {controller : AdmissionController}
    (hnodup : controller.live.Nodup) (id : ℕ) :
    (controller.leases.filter fun lease => lease.1 ≠ id).map Prod.fst =
      controller.live.erase id := by
  rw [hnodup.erase_eq_filter, live, List.filter_map]
  congr 1
  apply List.filter_congr
  intro lease _
  by_cases hlease : lease.1 = id <;> simp [hlease]

/-- Dropping one live lease drops exactly one from the count. -/
theorem Sound.drop {controller : AdmissionController} {id : ℕ}
    (hsound : Sound limits controller) (hlive : id ∈ controller.live) :
    Sound limits { controller with
      active := controller.active - 1
      leases := controller.leases.filter fun lease => lease.1 ≠ id } := by
  have herase := live_filter_ne hsound.nodup id
  have hlength := List.length_erase_of_mem hlive
  have hpos := List.length_pos_of_mem hlive
  have hactive := hsound.active_eq
  have hle := hsound.active_le
  refine ⟨?_, ?_, hsound.queue_le, hsound.drained, ?_, ?_⟩
  · change controller.active - 1 = ((controller.leases.filter _).map _).length
    rw [herase, hlength]
    omega
  · change controller.active - 1 ≤ _
    omega
  · intro lease hlease
    change lease ∈ (controller.leases.filter _).map _ at hlease
    rw [herase] at hlease
    exact hsound.issued lease (List.mem_of_mem_erase hlease)
  · change ((controller.leases.filter _).map _).Nodup
    rw [herase]
    exact hsound.nodup.erase id

theorem Settled.release {controller : AdmissionController}
    (hsettled : Settled limits controller) (id : ℕ) :
    Settled limits (controller.release limits id) := by
  unfold AdmissionController.release
  split
  · rename_i hlive
    have hpos : 0 < controller.active := by
      rw [hsettled.sound.active_eq]
      exact_mod_cast List.length_pos_of_mem hlive
    rw [releaseSlot]
    simp only [hpos, if_true]
    exact (hsettled.sound.drop hlive).refill
  · exact hsettled

/-- A release of a lease that is no longer in the map changes nothing. -/
theorem release_dead {controller : AdmissionController} {id : ℕ}
    (hdead : id ∉ controller.live) : controller.release limits id = controller :=
  if_neg hdead

theorem reapLeases_live (controller : AdmissionController) :
    controller.reapLeases.live.Sublist controller.live :=
  List.filter_sublist.map _

theorem Sound.reapLeases {controller : AdmissionController}
    (hsound : Sound limits controller) :
    Sound limits controller.reapLeases := by
  have hactive := hsound.active_eq
  have hle := hsound.active_le
  have hsplit := List.length_eq_length_filter_add (l := controller.leases)
    (expiredLease controller.now)
  have hlength : controller.live.length = controller.leases.length := by
    simp [AdmissionController.live]
  refine ⟨?_, ?_, hsound.queue_le, hsound.drained, ?_, ?_⟩
  · simp only [AdmissionController.reapLeases, AdmissionController.live,
      List.length_map]
    omega
  · simp only [AdmissionController.reapLeases]
    omega
  · intro lease hlease
    exact hsound.issued lease ((reapLeases_live controller).mem hlease)
  · exact hsound.nodup.sublist (reapLeases_live controller)

theorem Settled.reapExpired {controller : AdmissionController}
    (hsettled : Settled limits controller) :
    Settled limits (controller.reapExpired limits) := by
  unfold AdmissionController.reapExpired
  split
  · exact hsettled.shorten (prune_sameSlots _) (prune_waiters _)
  · exact hsettled.sound.prune.reapLeases.refill

theorem shutOut_sameSlots (queue : List Waiter)
    (controller : AdmissionController) :
    SameSlots controller (queue.foldl shutOut controller) ∧
      (queue.foldl shutOut controller).waiters = controller.waiters := by
  induction queue generalizing controller with
  | nil => exact ⟨.refl controller, rfl⟩
  | cons waiter rest ih =>
      obtain ⟨hsame, hqueue⟩ := ih (controller.shutOut waiter)
      have hfirst : SameSlots controller (controller.shutOut waiter) :=
        ⟨rfl, rfl, rfl, rfl⟩
      exact ⟨hfirst.trans hsame, hqueue⟩

theorem Settled.close {controller : AdmissionController}
    (hsettled : Settled limits controller) :
    Settled limits controller.close := by
  unfold AdmissionController.close
  split
  · exact hsettled
  · obtain ⟨hsame, hqueue⟩ := shutOut_sameSlots controller.waiters
      { controller with closed := true, waiters := [] }
    refine .ofClosed ?_ hsame.closed
    have hsound : Sound limits
        { controller with closed := true, waiters := [] } :=
      ⟨hsettled.sound.active_eq, hsettled.sound.active_le, Nat.zero_le _,
        fun _ => rfl, hsettled.sound.issued, hsettled.sound.nodup⟩
    exact hsound.shorten hsame (by rw [hqueue])

theorem Settled.acquire {controller : AdmissionController}
    (hsettled : Settled limits controller) (aborted wait : Bool) :
    Settled limits (controller.acquire limits aborted wait).2 := by
  have hreaped := hsettled.reapExpired
  unfold AdmissionController.acquire
  generalize controller.reapExpired limits = reaped at hreaped
  dsimp only
  split_ifs with hclosed haborted hroom hnested hqueue
  · exact hreaped.shorten ⟨rfl, rfl, rfl, rfl⟩ (List.Sublist.refl _)
  · exact hreaped.shorten ⟨rfl, rfl, rfl, rfl⟩ (List.Sublist.refl _)
  · refine ⟨hreaped.sound.lease hroom rfl
      (@makeLease_live limits reaped 0) rfl rfl rfl, ?_⟩
    -- An immediate grant finds the queue empty: a waiter would have no room.
    intro hopen hwaiting
    exact absurd (hreaped.full hopen hwaiting) hroom.ne
  · exact hreaped.shorten ⟨rfl, rfl, rfl, rfl⟩ (List.Sublist.refl _)
  · exact hreaped.shorten ⟨rfl, rfl, rfl, rfl⟩ (List.Sublist.refl _)
  · have hactive : reaped.active = limits.concurrency :=
      le_antisymm hreaped.sound.active_le (not_lt.mp hroom)
    refine ⟨⟨hreaped.sound.active_eq, hreaped.sound.active_le, ?_, ?_,
      hreaped.sound.issued, hreaped.sound.nodup⟩, fun _ _ => hactive⟩
    · simp only [List.length_append, List.length_singleton]
      omega
    · intro hlater
      exact absurd hlater hclosed

theorem Settled.giveUp {controller : AdmissionController}
    (hsettled : Settled limits controller) (waiter : ℕ)
    (count : Totals → Totals) :
    Settled limits (controller.giveUp waiter count) := by
  unfold AdmissionController.giveUp
  split
  · exact hsettled
  · rename_i later hremove
    obtain ⟨hsame, hqueue⟩ := remove_some hremove
    exact (hsettled.shorten hsame hqueue).shorten ⟨rfl, rfl, rfl, rfl⟩
      (List.Sublist.refl _)

theorem Settled.leaveRace {controller : AdmissionController}
    (hsettled : Settled limits controller) (racing : Finset ℕ) :
    Settled limits { controller with racing := racing } :=
  hsettled.shorten ⟨rfl, rfl, rfl, rfl⟩ (List.Sublist.refl _)

theorem Settled.received {controller : AdmissionController}
    (hsettled : Settled limits controller) (waiter : ℕ) (exit : Exit) :
    Settled limits (controller.received limits waiter exit).2 := by
  have hleft := hsettled.leaveRace (controller.racing.erase waiter)
  unfold AdmissionController.received
  cases exit with
  | error error => exact hleft
  | ok lease =>
      dsimp only
      split
      · exact (hleft.release lease.id).shorten ⟨rfl, rfl, rfl, rfl⟩
          (List.Sublist.refl _)
      · exact hleft

theorem Settled.cleanup {controller : AdmissionController}
    (hsettled : Settled limits controller) (waiter : ℕ) :
    Settled limits (controller.cleanup limits waiter) := by
  have hleft := hsettled.leaveRace (controller.racing.erase waiter)
  unfold AdmissionController.cleanup
  dsimp only
  split
  · rename_i later hremove
    obtain ⟨hsame, hqueue⟩ := remove_some hremove
    exact (hleft.shorten hsame hqueue).shorten ⟨rfl, rfl, rfl, rfl⟩
      (List.Sublist.refl _)
  · split
    · exact hleft.release _
    · exact hleft

/-! ## A lease leaves the map once -/

/-- Symbols are only ever taken from the end: no symbol already handed out
enters the map again. -/
structure Advances (before after : AdmissionController) : Prop where
  next : before.nextLease ≤ after.nextLease
  old : ∀ id < before.nextLease, id ∈ after.live → id ∈ before.live

theorem Advances.trans {first second third : AdmissionController}
    (hleft : Advances first second) (hright : Advances second third) :
    Advances first third :=
  ⟨hleft.next.trans hright.next, fun id hid hlive =>
    hleft.old id hid (hright.old id (hid.trans_le hleft.next) hlive)⟩

/-- Blocks that only take leases out of the map. -/
theorem Advances.sublist {before after : AdmissionController}
    (hnext : after.nextLease = before.nextLease)
    (hlive : after.live.Sublist before.live) : Advances before after :=
  ⟨hnext.ge, fun _ _ hmem => hlive.mem hmem⟩

theorem Advances.same {before after : AdmissionController}
    (hsame : SameSlots before after) : Advances before after :=
  .sublist hsame.nextLease (by rw [hsame.live])

theorem Advances.refl (controller : AdmissionController) :
    Advances controller controller := .same (.refl controller)

theorem Advances.lease {before after : AdmissionController}
    (hlive : after.live = before.live ++ [before.nextLease])
    (hnext : after.nextLease = before.nextLease + 1) :
    Advances before after := by
  refine ⟨by omega, fun id hid hmem => ?_⟩
  rw [hlive, List.mem_append, List.mem_singleton] at hmem
  rcases hmem with hold | rfl
  · exact hold
  · exact absurd hid (Nat.lt_irrefl _)

theorem advances_fillLoop (queue : List Waiter)
    (controller : AdmissionController) :
    Advances controller (fillLoop limits queue controller) := by
  induction queue generalizing controller with
  | nil => exact .same ⟨rfl, rfl, rfl, rfl⟩
  | cons waiter rest ih =>
      rw [fillLoop]
      split
      · exact (Advances.lease (grant_live controller waiter) rfl).trans (ih _)
      · exact .same ⟨rfl, rfl, rfl, rfl⟩

theorem advances_refill (controller : AdmissionController) :
    Advances controller (if controller.closed then controller
      else controller.fillSlots limits) := by
  split
  · exact .refl controller
  · exact (Advances.same (prune_sameSlots controller)).trans
      (advances_fillLoop _ _)

theorem advances_releaseSlot (controller : AdmissionController) :
    Advances controller (controller.releaseSlot limits) := by
  have hless : Advances controller
      { controller with active := controller.active - 1 } :=
    .sublist rfl (List.Sublist.refl _)
  rw [releaseSlot]
  split
  · exact hless.trans (advances_refill _)
  · exact advances_refill controller

theorem advances_release (controller : AdmissionController) (id : ℕ) :
    Advances controller (controller.release limits id) := by
  have hdropped : Advances controller { controller with
      leases := controller.leases.filter fun lease => lease.1 ≠ id } :=
    .sublist rfl (List.filter_sublist.map _)
  unfold release
  split
  · exact hdropped.trans (advances_releaseSlot _)
  · exact .refl controller

theorem advances_reapExpired (controller : AdmissionController) :
    Advances controller (controller.reapExpired limits) := by
  have hpruned : Advances controller (controller.pruneExpiredWaiters limits) :=
    .same (prune_sameSlots controller)
  have hreaped : Advances (controller.pruneExpiredWaiters limits)
      (controller.pruneExpiredWaiters limits).reapLeases :=
    .sublist rfl (reapLeases_live _)
  unfold reapExpired
  split
  · exact hpruned
  · exact hpruned.trans (hreaped.trans (advances_refill _))

theorem advances_acquire (controller : AdmissionController)
    (aborted wait : Bool) :
    Advances controller (controller.acquire limits aborted wait).2 := by
  refine (@advances_reapExpired limits controller).trans ?_
  unfold acquire
  generalize controller.reapExpired limits = reaped
  dsimp only
  split_ifs
  · exact .same ⟨rfl, rfl, rfl, rfl⟩
  · exact .same ⟨rfl, rfl, rfl, rfl⟩
  · exact .lease (@makeLease_live limits reaped 0) rfl
  · exact .same ⟨rfl, rfl, rfl, rfl⟩
  · exact .same ⟨rfl, rfl, rfl, rfl⟩
  · exact .same ⟨rfl, rfl, rfl, rfl⟩

theorem advances_giveUp (controller : AdmissionController) (waiter : ℕ)
    (count : Totals → Totals) :
    Advances controller (controller.giveUp waiter count) := by
  unfold giveUp
  split
  · exact .refl controller
  · rename_i later hremove
    exact (Advances.same (remove_some hremove).1).trans
      (.same ⟨rfl, rfl, rfl, rfl⟩)

theorem advances_close (controller : AdmissionController) :
    Advances controller controller.close := by
  have hclosing : Advances controller
      { controller with closed := true, waiters := [] } :=
    .sublist rfl (List.Sublist.refl _)
  unfold close
  split
  · exact .refl controller
  · exact hclosing.trans (.same (shutOut_sameSlots _ _).1)

theorem advances_received (controller : AdmissionController) (waiter : ℕ)
    (exit : Exit) :
    Advances controller (controller.received limits waiter exit).2 := by
  have hleft : Advances controller
      { controller with racing := controller.racing.erase waiter } :=
    .same ⟨rfl, rfl, rfl, rfl⟩
  unfold received
  cases exit with
  | error error => exact hleft
  | ok lease =>
      dsimp only
      split
      · exact (hleft.trans (advances_release _ lease.id)).trans
          (.same ⟨rfl, rfl, rfl, rfl⟩)
      · exact hleft

theorem advances_cleanup (controller : AdmissionController) (waiter : ℕ) :
    Advances controller (controller.cleanup limits waiter) := by
  have hleft : Advances controller
      { controller with racing := controller.racing.erase waiter } :=
    .same ⟨rfl, rfl, rfl, rfl⟩
  unfold cleanup
  dsimp only
  split
  · rename_i later hremove
    exact hleft.trans ((Advances.same (remove_some hremove).1).trans
      (.same ⟨rfl, rfl, rfl, rfl⟩))
  · split
    · exact hleft.trans (advances_release _ _)
    · exact hleft

end AdmissionController

/-! ## Every run -/

open AdmissionController

variable {limits : Limits}

/-- What a step that is enabled can do. -/
theorem step_cases {controller later : AdmissionController} {event : Event}
    (hmove : step limits controller event = some later) :
    (∃ now, later = { controller with now := now }) ∨
    (∃ aborted wait, later = (controller.acquire limits aborted wait).2) ∨
    (∃ lease, later = controller.release limits lease) ∨
    (∃ waiter exit, later = (controller.received limits waiter exit).2) ∨
    (∃ waiter count, later = controller.giveUp waiter count) ∨
    (∃ waiter, later = controller.cleanup limits waiter) ∨
    later = controller.reapExpired limits ∨ later = controller.close := by
  cases event with
  | clock now => exact .inl ⟨now, (Option.some.inj hmove).symm⟩
  | acquire aborted wait =>
      exact .inr (.inl ⟨aborted, wait, (Option.some.inj hmove).symm⟩)
  | release lease =>
      exact .inr (.inr (.inl ⟨lease, (Option.some.inj hmove).symm⟩))
  | resume waiter =>
      simp only [step] at hmove
      split at hmove
      · obtain ⟨exit, -, hexit⟩ := Option.map_eq_some_iff.mp hmove
        exact .inr (.inr (.inr (.inl ⟨waiter, exit, hexit.symm⟩)))
      · cases hmove
  | timeout waiter =>
      simp only [step, Option.ite_none_right_eq_some] at hmove
      exact .inr (.inr (.inr (.inr
        (.inl ⟨waiter, _, (Option.some.inj hmove.2).symm⟩))))
  | abort waiter =>
      simp only [step, Option.ite_none_right_eq_some] at hmove
      exact .inr (.inr (.inr (.inr
        (.inl ⟨waiter, _, (Option.some.inj hmove.2).symm⟩))))
  | interrupt waiter =>
      simp only [step, Option.ite_none_right_eq_some] at hmove
      exact .inr (.inr (.inr (.inr
        (.inr (.inl ⟨waiter, (Option.some.inj hmove.2).symm⟩)))))
  | reap waiter =>
      simp only [step, Option.ite_none_right_eq_some] at hmove
      exact .inr (.inr (.inr (.inr
        (.inr (.inr (.inl (Option.some.inj hmove.2).symm))))))
  | snapshot =>
      exact .inr (.inr (.inr (.inr
        (.inr (.inr (.inl (Option.some.inj hmove).symm))))))
  | close =>
      exact .inr (.inr (.inr (.inr
        (.inr (.inr (.inr (Option.some.inj hmove).symm))))))

theorem machine_step {controller later : AdmissionController} {event : Event}
    {emitted : List Empty}
    (hmove : (machine limits).step controller event = some (later, emitted)) :
    step limits controller event = some later := by
  obtain ⟨moved, hstep, hpair⟩ := Option.map_eq_some_iff.mp hmove
  rw [hstep]
  exact congrArg some (Prod.ext_iff.mp hpair).1

theorem settled_step {controller later : AdmissionController} {event : Event}
    (hsettled : Settled limits controller)
    (hmove : step limits controller event = some later) :
    Settled limits later := by
  obtain ⟨now, rfl⟩ | ⟨aborted, wait, rfl⟩ | ⟨lease, rfl⟩ | ⟨waiter, exit, rfl⟩ |
    ⟨waiter, count, rfl⟩ | ⟨waiter, rfl⟩ | rfl | rfl := step_cases hmove
  · exact hsettled.shorten ⟨rfl, rfl, rfl, rfl⟩ (List.Sublist.refl _)
  · exact hsettled.acquire aborted wait
  · exact hsettled.release lease
  · exact hsettled.received waiter exit
  · exact hsettled.giveUp waiter count
  · exact hsettled.cleanup waiter
  · exact hsettled.reapExpired
  · exact hsettled.close

theorem advances_step {controller later : AdmissionController} {event : Event}
    (hmove : step limits controller event = some later) :
    Advances controller later := by
  obtain ⟨now, rfl⟩ | ⟨aborted, wait, rfl⟩ | ⟨lease, rfl⟩ | ⟨waiter, exit, rfl⟩ |
    ⟨waiter, count, rfl⟩ | ⟨waiter, rfl⟩ | rfl | rfl := step_cases hmove
  · exact .same ⟨rfl, rfl, rfl, rfl⟩
  · exact advances_acquire controller aborted wait
  · exact advances_release controller lease
  · exact advances_received controller waiter exit
  · exact advances_giveUp controller waiter count
  · exact advances_cleanup controller waiter
  · exact advances_reapExpired controller
  · exact advances_close controller

theorem advances_leads {controller later : AdmissionController}
    (hleads : (machine limits).Leads controller later) :
    Advances controller later :=
  hleads.persist (motive := Advances controller)
    (fun _ _ _ _ hsofar hmove =>
      hsofar.trans (advances_step (machine_step hmove))) (.refl controller)

theorem settled_of_reachable {controller : AdmissionController}
    (hreach : (machine limits).Reachable controller) :
    Settled limits controller := by
  refine hreach.invariant ?_ fun _ _ _ _ hsettled hmove =>
    settled_step hsettled (machine_step hmove)
  rintro _ ⟨now, rfl⟩
  exact ⟨⟨rfl, Int.natCast_nonneg _, Nat.zero_le _, fun _ => rfl,
    fun _ hlease => (List.not_mem_nil hlease).elim, List.nodup_nil⟩,
    fun _ hwaiting => absurd rfl hwaiting⟩

/-- Reaping takes one slot back for every expired lease, whoever holds it. -/
theorem reapLeases_active (controller : AdmissionController) :
    controller.reapLeases.active = controller.active -
      (controller.live.length - controller.reapLeases.live.length : ℕ) := by
  have hsplit := List.length_eq_length_filter_add (l := controller.leases)
    (expiredLease controller.now)
  simp only [AdmissionController.reapLeases, AdmissionController.live,
    List.length_map]
  omega

/-- In every reachable state of every controller the counter is the number of
live leases and within `concurrency`, the queue is within `maxQueueSize`, and an
open controller with waiters has every slot taken.  Reaping takes one slot back
for each lease it removes.  A lease that has left the map, reaped or released,
never returns to it, and releasing it then or at any later time changes
nothing. -/
theorem slots_conserved (limits : Limits) (controller : AdmissionController)
    (hreach : (machine limits).Reachable controller) :
    (controller.active = controller.live.length ∧
        controller.active ≤ limits.concurrency) ∧
      controller.waiters.length ≤ limits.maxQueueSize ∧
      (controller.closed = false → controller.waiters ≠ [] →
        controller.active = limits.concurrency) ∧
      controller.reapLeases.active = controller.active -
        (controller.live.length - controller.reapLeases.live.length : ℕ) ∧
      ∀ lease ∈ controller.live, ∀ event after,
        step limits controller event = some after → lease ∉ after.live →
          ∀ later, (machine limits).Leads after later →
            lease ∉ later.live ∧ later.release limits lease = later := by
  have hsettled := settled_of_reachable hreach
  refine ⟨⟨hsettled.sound.active_eq, hsettled.sound.active_le⟩,
    hsettled.sound.queue_le, hsettled.full, reapLeases_active controller, ?_⟩
  intro lease hlive event after hmove hleft later hleads
  have hissued := hsettled.sound.issued lease hlive
  have hgone : lease ∉ later.live := fun hback => hleft
    ((advances_leads hleads).old lease
      (hissued.trans_le (advances_step hmove).next) hback)
  exact ⟨hgone, release_dead hgone⟩

/-- One slot held past its ten milliseconds: a snapshot reaps the lease, and
the holder's own release then finds nothing to free. -/
theorem slots_conserved_reaped :
    let limits : Limits := ⟨1, 1, 5, 5, some 10, by decide, by decide, by simp⟩
    let held := (({} : AdmissionController).acquire limits false true).2
    let late := { held with now := 20 }
    let reaped := late.reapExpired limits
    late.live = [0] ∧ late.active = 1 ∧ reaped.active = 0 ∧
      reaped.release limits 0 = reaped := by
  intro limits held late reaped
  have hstart : (machine limits).Reachable ({} : AdmissionController) :=
    .start ⟨0, rfl⟩
  have hheld : (machine limits).Reachable held :=
    hstart.next (.acquire false true) rfl
  have hlate : (machine limits).Reachable late := hheld.next (.clock 20) rfl
  have hconserved := slots_conserved limits late hlate
  have hrelease := (hconserved.2.2.2.2 0 (by decide) .snapshot reaped rfl
    (by decide) reaped .refl).2
  exact ⟨rfl, rfl, rfl, hrelease⟩

end Connecta.ExecutorAdmission
