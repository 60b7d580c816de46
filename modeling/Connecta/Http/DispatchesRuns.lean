import Connecta.Http.Dispatches

/-!
# Every declared write is sent at most once

The invariant ties a physical request to one reservation: a reservation is made
once for a declared write and stays; an execution that holds one took it while
it was unclaimed, so no two hold the same; and an execution hands over one
request, after its body was compared with the item it is sent for.
-/

namespace Connecta.Dispatches

open Connecta.Runtime
open Connecta.Transition
open Connecta.Http

/-! ## The ledger -/

/-- The logical writes a ledger reserves, in reservation order. -/
def reservations (ledger : List Dispatch) : List LogicalWrite :=
  ledger.filterMap Dispatch.write

/-- Entries stay, each for the write it was made for, and a claimed reservation
is never reserved again. -/
def Kept (before after : List Dispatch) : Prop :=
  ∀ (index : ℕ) (entry : Dispatch), before[index]? = some entry →
    ∃ later, after[index]? = some later ∧ later.write = entry.write ∧
      (entry.state ≠ .reserved → later.state ≠ .reserved)

theorem Kept.refl (ledger : List Dispatch) : Kept ledger ledger :=
  fun _ entry hentry => ⟨entry, hentry, rfl, id⟩

theorem Kept.trans {first second third : List Dispatch}
    (hfirst : Kept first second) (hsecond : Kept second third) :
    Kept first third := by
  intro index entry hentry
  obtain ⟨middle, hmiddle, hwrite, hstate⟩ := hfirst index entry hentry
  obtain ⟨last, hlast, hwrite', hstate'⟩ := hsecond index middle hmiddle
  exact ⟨last, hlast, hwrite'.trans hwrite, fun hentry => hstate' (hstate hentry)⟩

theorem kept_append (ledger added : List Dispatch) :
    Kept ledger (ledger ++ added) := by
  intro index entry hentry
  have hindex := (List.getElem?_eq_some_iff.mp hentry).1
  exact ⟨entry, by rw [List.getElem?_append_left hindex, hentry], rfl, id⟩

theorem kept_modify (ledger : List Dispatch) (dispatch : ℕ)
    {state : DispatchState} (hstate : state ≠ .reserved) :
    Kept ledger (ledger.modify dispatch ({ · with state := state })) := by
  intro index entry hentry
  by_cases hsame : dispatch = index
  · exact ⟨{ entry with state := state },
      by rw [List.getElem?_modify, hentry]; simp [hsame], rfl, fun _ => hstate⟩
  · exact ⟨entry, by rw [List.getElem?_modify, hentry]; simp [hsame], rfl, id⟩

theorem reservations_append (ledger added : List Dispatch) :
    reservations (ledger ++ added) = reservations ledger ++ reservations added :=
  List.filterMap_append

theorem reservations_modify (ledger : List Dispatch) (dispatch : ℕ)
    (state : DispatchState) :
    reservations (ledger.modify dispatch ({ · with state := state })) =
      reservations ledger := by
  induction ledger generalizing dispatch with
  | nil => cases dispatch <;> rfl
  | cons entry rest ih =>
      cases dispatch with
      | zero => rfl
      | succ dispatch =>
          have hrest := ih dispatch
          simp only [reservations] at hrest
          simp only [reservations, List.modify_succ_cons, List.filterMap_cons,
            hrest]

theorem mem_reservations {ledger : List Dispatch} {write : LogicalWrite} :
    write ∈ reservations ledger ↔ ∃ (index : ℕ) (entry : Dispatch),
      ledger[index]? = some entry ∧ entry.write = some write := by
  rw [reservations, List.mem_filterMap]
  constructor
  · rintro ⟨entry, hmem, hwrite⟩
    obtain ⟨index, hindex⟩ := List.mem_iff_getElem?.mp hmem
    exact ⟨index, entry, hindex, hwrite⟩
  · rintro ⟨index, entry, hindex, hwrite⟩
    exact ⟨entry, List.mem_of_getElem? hindex, hwrite⟩

theorem Kept.extends {before after : List Dispatch} (hkept : Kept before after) :
    reservations before <+: reservations after := by
  have hmap : before.map Dispatch.write <+: after.map Dispatch.write := by
    rw [List.prefix_iff_getElem?]
    intro index hindex
    rw [List.length_map] at hindex
    obtain ⟨later, hlater, hwrite, -⟩ :=
      hkept index before[index] (List.getElem?_eq_getElem hindex)
    rw [List.getElem?_map, hlater, List.getElem_map]
    exact congrArg some hwrite
  have hfilter := hmap.filterMap id
  rwa [List.filterMap_map, List.filterMap_map, Function.id_comp] at hfilter

/-- Distinct reservations are at distinct places. -/
theorem place_unique {ledger : List Dispatch} (hdistinct : (reservations ledger).Nodup)
    {first second : ℕ} {entry other : Dispatch} {write : LogicalWrite}
    (hfirst : ledger[first]? = some entry) (hsecond : ledger[second]? = some other)
    (hentry : entry.write = some write) (hother : other.write = some write) :
    first = second := by
  induction ledger generalizing first second with
  | nil => cases hfirst
  | cons head rest ih =>
      have hmem {place : ℕ} {found : Dispatch} (hplace : rest[place]? = some found)
          (hfound : found.write = some write) : write ∈ reservations rest :=
        mem_reservations.mpr ⟨place, found, hplace, hfound⟩
      have hhead (hwrite : head.write = some write) :
          write ∉ reservations rest := by
        have hcons : reservations (head :: rest) = write :: reservations rest :=
          List.filterMap_cons_some hwrite
        rw [hcons] at hdistinct
        exact (List.nodup_cons.mp hdistinct).1
      have hrest : (reservations rest).Nodup :=
        hdistinct.sublist ((List.sublist_cons_self head rest).filterMap _)
      cases first with
      | zero =>
          cases second with
          | zero => rfl
          | succ second =>
              obtain rfl := Option.some.inj hfirst
              exact absurd (hmem hsecond hother) (hhead hentry)
      | succ first =>
          cases second with
          | zero =>
              obtain rfl := Option.some.inj hsecond
              exact absurd (hmem hfirst hentry) (hhead hother)
          | succ second => rw [ih hrest hfirst hsecond]

/-- What a step may do to the ledger: at most one more reservation, of a declared
write that had none. -/
structure Extends (capacity : WriteCapacity) (before after : List Dispatch) :
    Prop where
  kept : Kept before after
  reserved : reservations after = reservations before ∨
    ∃ write, reservations after = reservations before ++ [write] ∧
      capacity.has write = true ∧ write ∉ reservations before

theorem Extends.refl (capacity : WriteCapacity) (ledger : List Dispatch) :
    Extends capacity ledger ledger :=
  ⟨Kept.refl ledger, Or.inl rfl⟩

theorem Extends.modify {capacity : WriteCapacity} {before after : List Dispatch}
    (hextends : Extends capacity before after) (dispatch : ℕ)
    {state : DispatchState} (hstate : state ≠ .reserved) :
    Extends capacity before
      (after.modify dispatch ({ · with state := state })) where
  kept := hextends.kept.trans (kept_modify after dispatch hstate)
  reserved := by rw [reservations_modify]; exact hextends.reserved

/-- The place holds a claimed reservation of the write. -/
def Holds (ledger : List Dispatch) (slot : ℕ) (write : LogicalWrite) : Prop :=
  ∃ entry, ledger[slot]? = some entry ∧ entry.write = some write ∧
    entry.state ≠ .reserved

def Unclaimed (ledger : List Dispatch) (slot : ℕ) : Prop :=
  ∀ entry, ledger[slot]? = some entry → entry.state = .reserved

theorem Holds.kept {before after : List Dispatch} {slot : ℕ}
    {write : LogicalWrite} (hholds : Holds before slot write)
    (hkept : Kept before after) : Holds after slot write := by
  obtain ⟨entry, hentry, hwrite, hstate⟩ := hholds
  obtain ⟨later, hlater, hsame, hclaimed⟩ := hkept slot entry hentry
  exact ⟨later, hlater, hsame.trans hwrite, hclaimed hstate⟩

theorem reserveWrite_spec {ledger later : List Dispatch}
    {capacity : WriteCapacity} {write : LogicalWrite} {slot : ℕ}
    (hreserve : reserveWrite ledger capacity write = .ok (later, slot)) :
    Extends capacity ledger later ∧ ledger[slot]? = none ∧
      later[slot]? = some { write := some write, state := .reserved } := by
  unfold reserveWrite at hreserve
  split at hreserve
  · cases hreserve
  · rename_i hhas
    split at hreserve
    · cases hreserve
    · rename_i habsent
      obtain ⟨rfl, rfl⟩ := Prod.mk.inj (Except.ok.inj hreserve)
      have hfresh : write ∉ reservations ledger := by
        intro hmem
        obtain ⟨index, entry, hindex, hwrite⟩ := mem_reservations.mp hmem
        have hentry := List.findIdx?_eq_none_iff.mp habsent entry
          (List.mem_of_getElem? hindex)
        rw [hwrite] at hentry
        simp at hentry
      refine ⟨⟨kept_append _ _, Or.inr ⟨write, ?_, ?_, hfresh⟩⟩, ?_, ?_⟩
      · rw [reservations_append]
        rfl
      · simpa using hhas
      · exact List.getElem?_eq_none le_rfl
      · rw [List.getElem?_append_right le_rfl, Nat.sub_self]
        rfl

/-! ## Executions -/

/-- The cells of `Send`s hold reservations of their own writes. -/
def CellsSound (call : Call) : Prop :=
  ∀ (send : ℕ) (facts : RequestFacts) (slot : ℕ),
    call.sends[send]? = some (facts, some slot) →
      ∃ entry, call.ledger[slot]? = some entry ∧ entry.write = some facts.write

/-- An execution with a cell is for the same write as the cell. -/
def Originates (call : Call) (facts : RequestFacts) : Prop :=
  ∀ send, facts.sent = some send →
    ∃ cell, call.sends[send]? = some cell ∧ cell.1.write = facts.write

/-- The request has the identifying content declared for the item. -/
def Keyed (client : Client) (capacity : WriteCapacity) (write : LogicalWrite)
    (request : OutgoingRequest) : Prop :=
  ∀ expected, capacity.request write = some expected →
    ∃ key, writeRequestKey client.grammar
        (actualRequest request.prepared expected) = some key ∧
      writeRequestKey client.grammar expected = some key

/-- What an execution has established when it waits in a phase. -/
def Execution.Established (client : Client) (capacity : WriteCapacity)
    (execution : Execution) : Prop :=
  match execution.phase with
  | .decided request => request.write = true → execution.slot.isSome = true
  | .checked request | .ready request _ | .sending request _ =>
      (request.write = true → execution.slot.isSome = true) ∧
        (execution.slot.isSome = true →
          Keyed client capacity execution.facts.write request)
  | _ => True

/-- The request was handed over, or never will be. -/
def Phase.past : Phase → Prop
  | .sent _ | .ended => True
  | _ => False

structure Execution.Sound (client : Client) (call : Call)
    (execution : Execution) : Prop where
  origin : Originates call execution.facts
  held : ∀ slot, execution.slot = some slot →
    Holds call.ledger slot execution.facts.write
  established : execution.Established client call.capacity

theorem claim_spec {call : Call} {facts : RequestFacts} {later : List Dispatch}
    {slot : ℕ} (hcells : CellsSound call) (horigin : Originates call facts)
    (hclaim : call.claim facts = .ok (later, slot)) :
    Extends call.capacity call.ledger later ∧ Holds later slot facts.write ∧
      Unclaimed call.ledger slot := by
  have hreserved {ledger : List Dispatch} {slot : ℕ}
      (hreserved : call.reserved facts = .ok (ledger, slot)) :
      Extends call.capacity call.ledger ledger ∧
        ∃ entry, ledger[slot]? = some entry ∧ entry.write = some facts.write ∧
          (entry.state = .reserved → Unclaimed call.ledger slot) := by
    unfold Call.reserved at hreserved
    split at hreserved
    · rename_i found hcell
      obtain ⟨rfl, rfl⟩ := Prod.mk.inj (Except.ok.inj hreserved)
      obtain ⟨cell, hcell, hslot⟩ := Option.bind_eq_some_iff.mp hcell
      obtain ⟨send, hsend, hcell⟩ := Option.bind_eq_some_iff.mp hcell
      obtain ⟨_, hsame, hwrite⟩ := horigin send hsend
      rw [hcell] at hsame
      obtain rfl := Option.some.inj hsame
      obtain ⟨made, option⟩ := cell
      obtain rfl : option = some found := hslot
      obtain ⟨entry, hentry, hentryWrite⟩ := hcells send made found hcell
      refine ⟨Extends.refl _ _, entry, hentry, hentryWrite.trans
        (congrArg some hwrite), fun hstate other hother => ?_⟩
      rw [hentry] at hother
      exact Option.some.inj hother ▸ hstate
    · obtain ⟨hextends, hnone, hentry⟩ := reserveWrite_spec hreserved
      refine ⟨hextends, _, hentry, rfl, fun _ other hother => ?_⟩
      rw [hnone] at hother
      cases hother
  unfold Call.claim at hclaim
  split at hclaim
  · cases hclaim
  · rename_i ledger found hfound
    obtain ⟨hextends, entry, hentry, hwrite, hunclaimed⟩ := hreserved hfound
    split at hclaim
    · rename_i hstate
      obtain ⟨rfl, rfl⟩ := Prod.mk.inj (Except.ok.inj hclaim)
      rw [hentry] at hstate
      refine ⟨hextends.modify found (by decide), ?_,
        hunclaimed (Option.some.inj hstate)⟩
      exact ⟨{ entry with state := .preparing },
        by rw [List.getElem?_modify, hentry]; simp, hwrite, by simp⟩
    · cases hclaim

/-! ## Steps -/

/-- What a step emits short of handing a request over. -/
def Silent (emitted : List Report) : Prop :=
  ∀ report ∈ emitted, ∃ failure, report = .refused failure

/-- A step that takes one execution further and leaves the others alone.  A new
slot was unclaimed, and only a request about to leave is handed over. -/
structure Continues (client : Client) (call later : Call) (emitted : List Report)
    (place : ℕ) (before after : Execution) : Prop where
  executions : ∀ other, later.executions[other]? =
    if other = place then some after else call.executions[other]?
  facts : after.facts = before.facts
  slot : after.slot = before.slot ∨ ∃ slot, after.slot = some slot ∧
    Holds later.ledger slot after.facts.write ∧ Unclaimed call.ledger slot
  established : before.Established client call.capacity →
    after.Established client call.capacity
  past : before.phase.past → after.phase.past
  output : Silent emitted ∨ ∃ request dispatch,
    before.phase = .sending request dispatch ∧ after.phase.past ∧
      after.slot = before.slot ∧
      emitted = [.handed request before.facts (call.reservation before.slot)]

/-- What a step does to the executions of a call. -/
inductive Executions (client : Client) (call later : Call)
    (emitted : List Report) : Prop where
  | same : later.executions = call.executions → Silent emitted →
      Executions client call later emitted
  | added {facts : RequestFacts} :
      later.executions = call.executions ++ [{ facts := facts }] →
        Originates call facts → Silent emitted →
          Executions client call later emitted
  | continued {place : ℕ} {before after : Execution} :
      call.executions[place]? = some before →
        Continues client call later emitted place before after →
          Executions client call later emitted

/-- One step of a call. -/
structure Moves (client : Client) (call later : Call) (emitted : List Report) :
    Prop where
  capacity : later.capacity = call.capacity
  ledger : Extends call.capacity call.ledger later.ledger
  sends : call.sends <+: later.sends
  cells : CellsSound call → CellsSound later
  executions : Executions client call later emitted

theorem silent_nil : Silent [] := fun _ hmem => by cases hmem

theorem silent_refused (failure : Failure) : Silent [.refused failure] :=
  fun _ hmem => ⟨failure, List.mem_singleton.mp hmem⟩

theorem CellsSound.kept {call later : Call} (hcells : CellsSound call)
    (hsends : later.sends = call.sends) (hkept : Kept call.ledger later.ledger) :
    CellsSound later := by
  intro send facts slot hsend
  rw [hsends] at hsend
  obtain ⟨entry, hentry, hwrite⟩ := hcells send facts slot hsend
  obtain ⟨other, hother, hsame, -⟩ := hkept slot entry hentry
  exact ⟨other, hother, hsame.trans hwrite⟩

/-- A step that touches one execution and the states of the ledger. -/
theorem moves_of_continues {client : Client} {call later : Call}
    {emitted : List Report} {place : ℕ} {before : Execution} (after : Execution)
    (hfound : call.executions[place]? = some before)
    (hcapacity : later.capacity = call.capacity)
    (hledger : Extends call.capacity call.ledger later.ledger)
    (hsends : later.sends = call.sends)
    (hcontinues : Continues client call later emitted place before after) :
    Moves client call later emitted where
  capacity := hcapacity
  ledger := hledger
  sends := by rw [hsends]
  cells := fun hcells => hcells.kept hsends hledger.kept
  executions := .continued hfound hcontinues

theorem executions_modify {executions : List Execution} {place : ℕ}
    {before : Execution} (hfound : executions[place]? = some before)
    (update : Execution → Execution) (other : ℕ) :
    (executions.modify place update)[other]? =
      if other = place then some (update before) else executions[other]? := by
  rw [List.getElem?_modify]
  by_cases hsame : other = place
  · subst hsame
    rw [hfound]
    simp
  · have hother : ¬ place = other := fun hplace => hsame hplace.symm
    simp [hsame, hother]

/-- A new phase whose conditions hold. -/
theorem continues_phase {client : Client} {call later : Call}
    {emitted : List Report} {place : ℕ} {before : Execution} {phase : Phase}
    (hfound : call.executions[place]? = some before)
    (hexecutions : later.executions =
      call.executions.modify place ({ · with phase := phase }))
    (hestablished : before.Established client call.capacity →
      ({ before with phase := phase } : Execution).Established client
        call.capacity)
    (hpast : before.phase.past → phase.past) (hsilent : Silent emitted) :
    Continues client call later emitted place before
      { before with phase := phase } where
  executions := fun other => by
    rw [hexecutions]
    exact executions_modify hfound _ other
  facts := rfl
  slot := Or.inl rfl
  established := hestablished
  past := hpast
  output := Or.inl hsilent

theorem moves_phase {client : Client} {call : Call} {place : ℕ}
    {before : Execution} {phase : Phase}
    (hfound : call.executions[place]? = some before)
    (hestablished : before.Established client call.capacity →
      ({ before with phase := phase } : Execution).Established client
        call.capacity)
    (hpast : before.phase.past → phase.past) :
    Moves client call (call.setPhase place phase) [] :=
  moves_of_continues _ hfound rfl (Extends.refl _ _) rfl
    (continues_phase hfound rfl hestablished hpast silent_nil)

theorem moves_refuse {client : Client} {call : Call} {place : ℕ}
    {before : Execution} (failure : Failure)
    (hfound : call.executions[place]? = some before) :
    Moves client call (call.refuse place failure).1
      (call.refuse place failure).2 :=
  moves_of_continues _ hfound rfl (Extends.refl _ _) rfl
    (continues_phase hfound rfl (fun _ => trivial) (fun _ => trivial)
      (silent_refused failure))

/-- A claim gives the execution a slot nobody held. -/
theorem moves_claim {client : Client} {call : Call} {place slot : ℕ}
    {before : Execution} {ledger : List Dispatch} {phase : Phase}
    (hfound : call.executions[place]? = some before)
    (hcells : CellsSound call) (horigin : Originates call before.facts)
    (hclaim : call.claim before.facts = .ok (ledger, slot))
    (hestablished : before.Established client call.capacity →
      ({ before with slot := some slot, phase := phase } :
        Execution).Established client call.capacity)
    (hpast : before.phase.past → phase.past) :
    Moves client call (call.setSlot place ledger slot phase) [] := by
  obtain ⟨hextends, hholds, hunclaimed⟩ := claim_spec hcells horigin hclaim
  refine moves_of_continues { before with slot := some slot, phase := phase } hfound
    rfl hextends rfl ?_
  exact {
    executions := fun other => executions_modify hfound _ other
    facts := rfl
    slot := Or.inr ⟨slot, rfl, hholds, hunclaimed⟩
    established := hestablished
    past := hpast
    output := Or.inl silent_nil }

/-- A new state of a dispatch, with a new phase. -/
theorem moves_state {client : Client} {call : Call} {place dispatch : ℕ}
    {before : Execution} {phase : Phase} {state : DispatchState}
    (hfound : call.executions[place]? = some before) (hstate : state ≠ .reserved)
    (hestablished : before.Established client call.capacity →
      ({ before with phase := phase } : Execution).Established client
        call.capacity)
    (hpast : before.phase.past → phase.past) :
    Moves client call ((call.setState dispatch state).setPhase place phase) [] :=
  moves_of_continues _ hfound rfl ((Extends.refl _ _).modify dispatch hstate) rfl
    (continues_phase hfound rfl hestablished hpast silent_nil)

/-- A step that leaves the executions and the ledger as they are. -/
theorem moves_same {client : Client} {call later : Call} {emitted : List Report}
    (hcapacity : later.capacity = call.capacity)
    (hledger : later.ledger = call.ledger) (hsends : later.sends = call.sends)
    (hexecutions : later.executions = call.executions)
    (hsilent : Silent emitted) : Moves client call later emitted where
  capacity := hcapacity
  ledger := by rw [hledger]; exact Extends.refl _ _
  sends := by rw [hsends]
  cells := fun hcells => hcells.kept hsends (by rw [hledger]; exact Kept.refl _)
  executions := .same hexecutions hsilent

theorem moves_refused (client : Client) (call : Call) (failure : Failure) :
    Moves client call call [.refused failure] :=
  moves_same rfl rfl rfl rfl (silent_refused failure)

/-- A new cell, whose reservation is of its own write. -/
theorem moves_cell {client : Client} {call : Call} {ledger : List Dispatch}
    {facts : RequestFacts} {option : Option ℕ}
    (hledger : Extends call.capacity call.ledger ledger)
    (hcell : ∀ slot, option = some slot →
      ∃ entry, ledger[slot]? = some entry ∧ entry.write = some facts.write) :
    Moves client call
      { call with ledger := ledger, sends := call.sends ++ [(facts, option)] }
      [] where
  capacity := rfl
  ledger := hledger
  sends := List.prefix_append _ _
  cells := by
    intro hcells send made slot hsend
    rcases lt_or_ge send call.sends.length with hold | hnew
    · rw [List.getElem?_append_left hold] at hsend
      obtain ⟨entry, hentry, hwrite⟩ := hcells send made slot hsend
      obtain ⟨other, hother, hsame, -⟩ := hledger.kept slot entry hentry
      exact ⟨other, hother, hsame.trans hwrite⟩
    · rw [List.getElem?_append_right hnew] at hsend
      obtain ⟨hfacts, hoption⟩ := Prod.mk.inj
        (List.mem_singleton.mp (List.mem_of_getElem? hsend))
      obtain ⟨entry, hentry, hwrite⟩ := hcell slot hoption.symm
      exact ⟨entry, hentry, by rw [hfacts]; exact hwrite⟩
  executions := .same rfl silent_nil

theorem moves_settle (client : Client) (call : Call) (services : Services)
    (facts : RequestFacts) (method : HttpMethod) :
    Moves client call (call.settle services facts method).1
      (call.settle services facts method).2 := by
  unfold Call.settle
  split
  · exact moves_refused client call _
  · split
    · split
      · exact moves_refused client call _
      · rename_i ledger slot hreserve
        obtain ⟨hextends, -, hentry⟩ := reserveWrite_spec hreserve
        refine moves_cell hextends fun found hfound => ?_
        obtain rfl := Option.some.inj hfound
        exact ⟨_, hentry, rfl⟩
    · exact moves_cell (Extends.refl _ _) fun _ hnone => by cases hnone

theorem moves_sendPath (client : Client) (call : Call) (services : Services)
    (facts : RequestFacts) (method : HttpMethod) (rawBody encoded : Bool) :
    Moves client call (call.sendPath services facts method rawBody encoded).1
      (call.sendPath services facts method rawBody encoded).2 := by
  unfold Call.sendPath
  split
  · exact moves_refused client call _
  · exact moves_settle client call services facts method

theorem moves_sendItem (client : Client) (call : Call) (services : Services)
    (step item : JsString) :
    Moves client call (call.sendItem services step item).1
      (call.sendItem services step item).2 := by
  unfold Call.sendItem
  split
  · exact moves_refused client call _
  · exact moves_sendPath client call services _ _ _ _

theorem moves_begin {client : Client} {call : Call} {facts : RequestFacts}
    (horigin : Originates call facts) :
    Moves client call (call.begin facts).1 (call.begin facts).2 := by
  unfold Call.begin
  split
  · exact moves_refused client call _
  · exact {
      capacity := rfl
      ledger := Extends.refl _ _
      sends := List.prefix_refl _
      cells := fun hcells => hcells
      executions := .added rfl horigin silent_nil }

theorem moves_prepare {client : Client} {call : Call} {place : ℕ}
    {before : Execution} (hfound : call.executions[place]? = some before)
    (services : Services) (request : PreparedRequest)
    (hphase : before.phase = .claimed) :
    Moves client call (call.prepare client services place before request).1
      (call.prepare client services place before request).2 := by
  unfold Call.prepare
  split
  · exact moves_refuse _ hfound
  · split
    · exact moves_refuse _ hfound
    · exact moves_phase hfound (fun _ => trivial)
        fun hpast => by rw [hphase] at hpast; exact hpast

theorem moves_claimEarly {client : Client} {call : Call} {place : ℕ}
    {before : Execution} (hfound : call.executions[place]? = some before)
    (hcells : CellsSound call) (horigin : Originates call before.facts)
    (services : Services) (hphase : before.phase = .entered) :
    Moves client call (call.claimEarly services place before).1
      (call.claimEarly services place before).2 := by
  have hpast : before.phase.past → Phase.past .claimed := fun hpast => by
    rw [hphase] at hpast
    exact hpast
  unfold Call.claimEarly
  split
  · split
    · exact moves_refuse _ hfound
    · rename_i ledger slot hclaim
      exact moves_claim hfound hcells horigin hclaim (fun _ => trivial) hpast
  · exact moves_phase hfound (fun _ => trivial) hpast

/-- A write that is decided has a slot. -/
theorem moves_decideWrite {client : Client} {call : Call} {place : ℕ}
    {before : Execution} (hfound : call.executions[place]? = some before)
    (hcells : CellsSound call) (horigin : Originates call before.facts)
    (request : OutgoingRequest) (hphase : before.phase = .prepared request) :
    Moves client call (call.decideWrite place before request).1
      (call.decideWrite place before request).2 := by
  have hpast : before.phase.past → (Phase.decided request).past := fun hpast => by
    rw [hphase] at hpast
    exact hpast
  unfold Call.decideWrite
  split
  · split
    · exact moves_refuse _ hfound
    · rename_i ledger slot hclaim
      exact moves_claim hfound hcells horigin hclaim (fun _ _ => rfl) hpast
  · rename_i hdecided
    refine moves_phase hfound (fun _ hwrite => ?_) hpast
    cases hslot : before.slot with
    | none => simp [hwrite, hslot] at hdecided
    | some slot => rfl

/-- A request that passed the check is its item's. -/
theorem moves_check {client : Client} {call : Call} {place : ℕ}
    {before : Execution} (hfound : call.executions[place]? = some before)
    (hsound : before.Sound client call) (request : OutgoingRequest)
    (hphase : before.phase = .decided request) :
    Moves client call (call.check client place before request).1
      (call.check client place before request).2 := by
  have hpast : before.phase.past → (Phase.checked request).past := fun hpast => by
    rw [hphase] at hpast
    exact hpast
  have hwrite : request.write = true → before.slot.isSome = true := by
    have hestablished := hsound.established
    simpa only [Execution.Established, hphase] using hestablished
  have hreservation (hslot : before.slot.isSome = true) :
      call.reservation before.slot = some before.facts.write := by
    obtain ⟨slot, hslot⟩ := Option.isSome_iff_exists.mp hslot
    obtain ⟨entry, hentry, hheld, -⟩ := hsound.held slot hslot
    simp only [Call.reservation, hslot, Option.bind_some, hentry, hheld]
  unfold Call.check
  split
  · rename_i hnone
    refine moves_phase hfound (fun _ => ⟨hwrite, fun hslot expected hexpected => ?_⟩)
      hpast
    rw [hreservation hslot, Option.bind_some, hexpected] at hnone
    cases hnone
  · rename_i found hfoundRequest
    split
    · exact moves_refuse _ hfound
    · split
      · exact moves_refuse _ hfound
      · rename_i actual hactual
        split
        · rename_i hkey
          refine moves_phase hfound
            (fun _ => ⟨hwrite, fun hslot expected hexpected => ?_⟩) hpast
          rw [hreservation hslot, Option.bind_some, hexpected] at hfoundRequest
          obtain rfl := Option.some.inj hfoundRequest
          exact ⟨actual, hactual, hkey⟩
        · exact moves_refuse _ hfound

theorem extends_append_none (capacity : WriteCapacity) (ledger : List Dispatch)
    (state : DispatchState) :
    Extends capacity ledger (ledger ++ [{ write := none, state := state }]) where
  kept := kept_append _ _
  reserved := Or.inl (by rw [reservations_append]; exact List.append_nil _)

theorem moves_record {client : Client} {call : Call} {place : ℕ}
    {before : Execution} (hfound : call.executions[place]? = some before)
    (request : OutgoingRequest) (hphase : before.phase = .checked request) :
    Moves client call (call.record client place before request).1
      (call.record client place before request).2 := by
  have hpast (dispatch : ℕ) :
      before.phase.past → (Phase.ready request dispatch).past := fun hpast => by
    rw [hphase] at hpast
    exact hpast
  have hestablished (dispatch : ℕ) :
      before.Established client call.capacity →
        ({ before with phase := .ready request dispatch } :
          Execution).Established client call.capacity := fun hbefore => by
    simpa only [Execution.Established, hphase] using hbefore
  unfold Call.record
  split
  · exact moves_refuse _ hfound
  · split
    · exact moves_refuse _ hfound
    · split
      · exact moves_phase hfound (hestablished _) (hpast _)
      · exact moves_of_continues _ hfound rfl (extends_append_none _ _ _) rfl
          (continues_phase hfound rfl (hestablished _) (hpast _) silent_nil)

theorem moves_interrupt {client : Client} {call : Call} {place : ℕ}
    {before : Execution} (hfound : call.executions[place]? = some before) :
    Moves client call (call.interrupt place before).1
      (call.interrupt place before).2 := by
  unfold Call.interrupt
  split
  · exact moves_same rfl rfl rfl rfl silent_nil
  · exact moves_phase hfound (fun _ => trivial) (fun _ => trivial)

theorem moves_advance {client : Client} {call later : Call}
    {emitted : List Report} {place : ℕ} {before : Execution} {event : Event}
    (hfound : call.executions[place]? = some before) (hcells : CellsSound call)
    (hsound : before.Sound client call)
    (hmove : call.advance client place before before.phase event =
      some (later, emitted)) : Moves client call later emitted := by
  generalize hphase : before.phase = phase at hmove
  unfold Call.advance at hmove
  split at hmove
  · obtain ⟨rfl, rfl⟩ := Prod.mk.inj (Option.some.inj hmove)
    exact moves_claimEarly hfound hcells hsound.origin _ hphase
  · obtain ⟨rfl, rfl⟩ := Prod.mk.inj (Option.some.inj hmove)
    exact moves_prepare hfound _ _ hphase
  · obtain ⟨rfl, rfl⟩ := Prod.mk.inj (Option.some.inj hmove)
    exact moves_decideWrite hfound hcells hsound.origin _ hphase
  · obtain ⟨rfl, rfl⟩ := Prod.mk.inj (Option.some.inj hmove)
    exact moves_check hfound hsound _ hphase
  · obtain ⟨rfl, rfl⟩ := Prod.mk.inj (Option.some.inj hmove)
    exact moves_record hfound _ hphase
  · obtain ⟨rfl, rfl⟩ := Prod.mk.inj (Option.some.inj hmove)
    refine moves_state hfound (by decide) (fun hbefore => ?_) fun hpast => ?_
    · simpa only [Execution.Established, hphase] using hbefore
    · rw [hphase] at hpast
      exact hpast
  · -- The request leaves under the slot the execution holds.
    rename_i request dispatch _ accepted
    split at hmove
    · obtain ⟨rfl, rfl⟩ := Prod.mk.inj (Option.some.inj hmove)
      refine moves_of_continues { before with phase := .sent dispatch } hfound
        rfl (Extends.refl _ _) rfl ?_
      exact {
        executions := fun other => executions_modify hfound _ other
        facts := rfl
        slot := Or.inl rfl
        established := fun _ => trivial
        past := fun _ => trivial
        output := Or.inr ⟨request, dispatch, hphase, trivial, rfl, rfl⟩ }
    · obtain ⟨rfl, rfl⟩ := Prod.mk.inj (Option.some.inj hmove)
      exact moves_refuse _ hfound
  · obtain ⟨rfl, rfl⟩ := Prod.mk.inj (Option.some.inj hmove)
    exact moves_state hfound (by decide) (fun _ => trivial) fun _ => trivial
  · obtain ⟨rfl, rfl⟩ := Prod.mk.inj (Option.some.inj hmove)
    exact moves_state hfound (by decide) (fun _ => trivial) fun _ => trivial
  · obtain ⟨rfl, rfl⟩ := Prod.mk.inj (Option.some.inj hmove)
    exact moves_interrupt hfound
  · cases hmove

/-- The logical write a report's request was sent under. -/
def Report.reservation : Report → Option LogicalWrite
  | .handed _ _ reservation => reservation
  | .refused _ => none

/-- What holds of every request that was handed over. -/
def Permitted (client : Client) (call : Call) : Report → Prop
  | .handed request facts reservation =>
      (request.write = true → reservation.isSome = true) ∧
        ∀ write, reservation = some write →
          write = facts.write ∧ write ∈ reservations call.ledger ∧
            Keyed client call.capacity write request
  | .refused _ => True

/-- The invariant of a call and what it has handed over so far. -/
structure Sound (client : Client) (call : Call) (reports : List Report) :
    Prop where
  distinct : (reservations call.ledger).Nodup
  declared : ∀ write ∈ reservations call.ledger, call.capacity.has write = true
  cells : CellsSound call
  executions : ∀ (place : ℕ) (execution : Execution),
    call.executions[place]? = some execution → execution.Sound client call
  exclusive : ∀ (first second : ℕ) (execution other : Execution) (slot : ℕ),
    call.executions[first]? = some execution →
      call.executions[second]? = some other → execution.slot = some slot →
        other.slot = some slot → first = second
  once : (reports.filterMap Report.reservation).Nodup
  accounted : ∀ write ∈ reports.filterMap Report.reservation,
    ∃ (place : ℕ) (execution : Execution),
      call.executions[place]? = some execution ∧ execution.phase.past ∧
        execution.slot.isSome = true ∧ execution.facts.write = write
  permitted : ∀ report ∈ reports, Permitted client call report

theorem moves_step {client : Client} {call later : Call} {event : Event}
    {emitted reports : List Report} (hsound : Sound client call reports)
    (hmove : call.step client event = some (later, emitted)) :
    Moves client call later emitted := by
  unfold Call.step at hmove
  split at hmove
  · obtain ⟨rfl, rfl⟩ := Prod.mk.inj (Option.some.inj hmove)
    exact moves_settle client call _ _ _
  · obtain ⟨rfl, rfl⟩ := Prod.mk.inj (Option.some.inj hmove)
    exact moves_sendPath client call _ _ _ _ _
  · obtain ⟨rfl, rfl⟩ := Prod.mk.inj (Option.some.inj hmove)
    exact moves_sendItem client call _ _ _
  · obtain ⟨rfl, rfl⟩ := Prod.mk.inj (Option.some.inj hmove)
    exact moves_same rfl rfl rfl rfl silent_nil
  · split at hmove
    · cases hmove
    · rename_i send _ facts option hcell
      obtain ⟨rfl, rfl⟩ := Prod.mk.inj (Option.some.inj hmove)
      refine moves_begin fun found hfound => ?_
      obtain rfl := Option.some.inj hfound
      exact ⟨_, hcell, rfl⟩
  · obtain ⟨rfl, rfl⟩ := Prod.mk.inj (Option.some.inj hmove)
    exact moves_begin fun _ hnone => by cases hnone
  all_goals
    split at hmove
    · cases hmove
    · rename_i hfound
      exact moves_advance hfound hsound.cells (hsound.executions _ _ hfound) hmove

/-! ## Preservation -/

theorem Originates.later {call later : Call} {facts : RequestFacts}
    (horigin : Originates call facts) (hsends : call.sends <+: later.sends) :
    Originates later facts := by
  intro send hsend
  obtain ⟨cell, hcell, hwrite⟩ := horigin send hsend
  have hbound := (List.getElem?_eq_some_iff.mp hcell).1
  obtain ⟨added, hadded⟩ := hsends
  exact ⟨cell, by rw [← hadded, List.getElem?_append_left hbound, hcell], hwrite⟩

theorem Execution.Sound.moves {client : Client} {call later : Call}
    {emitted : List Report} {execution : Execution}
    (hsound : execution.Sound client call)
    (hmoves : Moves client call later emitted) :
    execution.Sound client later where
  origin := hsound.origin.later hmoves.sends
  held := fun slot hslot => (hsound.held slot hslot).kept hmoves.ledger.kept
  established := by rw [hmoves.capacity]; exact hsound.established

/-- A new execution holds nothing. -/
theorem sound_fresh {client : Client} {call : Call} {facts : RequestFacts}
    (horigin : Originates call facts) :
    ({ facts := facts } : Execution).Sound client call where
  origin := horigin
  held := fun _ hslot => by cases hslot
  established := trivial

theorem Continues.sound {client : Client} {call later : Call}
    {emitted : List Report} {place : ℕ} {before after : Execution}
    (hcontinues : Continues client call later emitted place before after)
    (hmoves : Moves client call later emitted)
    (hsound : before.Sound client call) : after.Sound client later where
  origin := by
    rw [hcontinues.facts]
    exact hsound.origin.later hmoves.sends
  held := by
    intro slot hslot
    rcases hcontinues.slot with hsame | ⟨found, hfound, hholds, -⟩
    · rw [hcontinues.facts]
      exact (hsound.held slot (hsame ▸ hslot)).kept hmoves.ledger.kept
    · rw [hfound] at hslot
      exact Option.some.inj hslot ▸ hholds
  established := by
    rw [hmoves.capacity]
    exact hcontinues.established hsound.established

/-- Every execution after a step is new, or continues one that was there. -/
theorem Executions.origin {client : Client} {call later : Call}
    {emitted : List Report} (hexecutions : Executions client call later emitted)
    {place : ℕ} {after : Execution}
    (hafter : later.executions[place]? = some after) :
    call.executions[place]? = some after ∨
      (∃ facts, after = { facts := facts } ∧ Originates call facts) ∨
      ∃ before, call.executions[place]? = some before ∧
        Continues client call later emitted place before after := by
  cases hexecutions with
  | same hsame _ => exact Or.inl (by rw [← hsame]; exact hafter)
  | @added facts hadded horigin _ =>
      rw [hadded] at hafter
      rcases lt_or_ge place call.executions.length with hold | hnew
      · exact Or.inl (by rwa [List.getElem?_append_left hold] at hafter)
      · rw [List.getElem?_append_right hnew] at hafter
        exact Or.inr (Or.inl ⟨facts,
          List.mem_singleton.mp (List.mem_of_getElem? hafter), horigin⟩)
  | @continued moved before other hfound hcontinues =>
      rw [hcontinues.executions place] at hafter
      by_cases hplace : place = moved
      · subst hplace
        rw [if_pos rfl] at hafter
        obtain rfl := Option.some.inj hafter
        exact Or.inr (Or.inr ⟨before, hfound, hcontinues⟩)
      · rw [if_neg hplace] at hafter
        exact Or.inl hafter

theorem executions_sound {client : Client} {call later : Call}
    {emitted reports : List Report} (hsound : Sound client call reports)
    (hmoves : Moves client call later emitted) {place : ℕ} {after : Execution}
    (hafter : later.executions[place]? = some after) :
    after.Sound client later := by
  rcases hmoves.executions.origin hafter with
    hold | ⟨facts, rfl, horigin⟩ | ⟨before, hbefore, hcontinues⟩
  · exact (hsound.executions place after hold).moves hmoves
  · exact sound_fresh (horigin.later hmoves.sends)
  · exact hcontinues.sound hmoves (hsound.executions place before hbefore)

/-- A slot an execution holds after a step it held before, or nobody did and no
other execution moved. -/
theorem held_before {client : Client} {call later : Call}
    {emitted : List Report} (hmoves : Moves client call later emitted)
    {place : ℕ} {after : Execution} {slot : ℕ}
    (hafter : later.executions[place]? = some after)
    (hslot : after.slot = some slot) :
    (∃ before, call.executions[place]? = some before ∧
      before.slot = some slot) ∨ (Unclaimed call.ledger slot ∧
        ∀ other, other ≠ place →
          later.executions[other]? = call.executions[other]?) := by
  rcases hmoves.executions.origin hafter with
    hold | ⟨facts, rfl, -⟩ | ⟨before, hbefore, hcontinues⟩
  · exact Or.inl ⟨after, hold, hslot⟩
  · cases hslot
  · rcases hcontinues.slot with hsame | ⟨found, hfound, -, hunclaimed⟩
    · exact Or.inl ⟨before, hbefore, hsame ▸ hslot⟩
    · rw [hfound] at hslot
      refine Or.inr ⟨Option.some.inj hslot ▸ hunclaimed, fun other hother => ?_⟩
      rw [hcontinues.executions other, if_neg hother]

/-- An execution that held an unclaimed slot cannot be. -/
theorem not_unclaimed {client : Client} {call : Call} {reports : List Report}
    (hsound : Sound client call reports) {place slot : ℕ} {execution : Execution}
    (hexecution : call.executions[place]? = some execution)
    (hslot : execution.slot = some slot) : ¬ Unclaimed call.ledger slot := by
  intro hunclaimed
  obtain ⟨entry, hentry, -, hstate⟩ :=
    (hsound.executions place execution hexecution).held slot hslot
  exact hstate (hunclaimed entry hentry)

theorem exclusive_step {client : Client} {call later : Call}
    {emitted reports : List Report} (hsound : Sound client call reports)
    (hmoves : Moves client call later emitted) {first second slot : ℕ}
    {execution other : Execution}
    (hfirst : later.executions[first]? = some execution)
    (hsecond : later.executions[second]? = some other)
    (hslot : execution.slot = some slot) (hother : other.slot = some slot) :
    first = second := by
  rcases held_before hmoves hfirst hslot with
    ⟨before, hbefore, hheld⟩ | ⟨hfree, hothers⟩
  · rcases held_before hmoves hsecond hother with
      ⟨rival, hrival, htoo⟩ | ⟨hfree, -⟩
    · exact hsound.exclusive first second before rival slot hbefore hrival hheld
        htoo
    · exact absurd hfree (not_unclaimed hsound hbefore hheld)
  · by_contra hdistinct
    rw [hothers second fun hsame => hdistinct hsame.symm] at hsecond
    exact not_unclaimed hsound hsecond hother hfree

/-- A request that was handed over stays accounted for. -/
theorem accounted_step {client : Client} {call later : Call}
    {emitted : List Report} (hmoves : Moves client call later emitted)
    {place : ℕ} {execution : Execution}
    (hexecution : call.executions[place]? = some execution)
    (hpast : execution.phase.past) (hslot : execution.slot.isSome = true) :
    ∃ after, later.executions[place]? = some after ∧ after.phase.past ∧
      after.slot.isSome = true ∧ after.facts = execution.facts := by
  cases hmoves.executions with
  | same hsame _ => exact ⟨execution, by rw [hsame, hexecution], hpast, hslot, rfl⟩
  | added hadded _ _ =>
      have hbound := (List.getElem?_eq_some_iff.mp hexecution).1
      exact ⟨execution, by rw [hadded, List.getElem?_append_left hbound,
        hexecution], hpast, hslot, rfl⟩
  | @continued moved before after hfound hcontinues =>
      by_cases hplace : place = moved
      · subst hplace
        rw [hfound] at hexecution
        obtain rfl := Option.some.inj hexecution
        refine ⟨after, by rw [hcontinues.executions, if_pos rfl],
          hcontinues.past hpast, ?_, hcontinues.facts⟩
        rcases hcontinues.slot with hsame | ⟨slot, hnew, -⟩
        · rw [hsame, hslot]
        · rw [hnew]
          rfl
      · exact ⟨execution, by rw [hcontinues.executions, if_neg hplace,
          hexecution], hpast, hslot, rfl⟩

theorem Permitted.moves {client : Client} {call later : Call}
    {emitted : List Report} {report : Report}
    (hpermitted : Permitted client call report)
    (hmoves : Moves client call later emitted) :
    Permitted client later report := by
  cases report with
  | refused failure => trivial
  | handed request facts reservation =>
      refine ⟨hpermitted.1, fun write hwrite => ?_⟩
      obtain ⟨hsame, hmem, hkeyed⟩ := hpermitted.2 write hwrite
      refine ⟨hsame, hmoves.ledger.kept.extends.subset hmem, ?_⟩
      rw [hmoves.capacity]
      exact hkeyed

/-- What a step emits: refusals, or one request that had not been handed over,
by an execution that holds what it is sent under. -/
theorem emitted_cases {client : Client} {call later : Call}
    {emitted : List Report} (hmoves : Moves client call later emitted) :
    Silent emitted ∨ ∃ (place dispatch : ℕ) (before after : Execution)
      (request : OutgoingRequest),
      call.executions[place]? = some before ∧
        later.executions[place]? = some after ∧
        before.phase = .sending request dispatch ∧ after.phase.past ∧
        after.slot = before.slot ∧ after.facts = before.facts ∧
        emitted =
          [.handed request before.facts (call.reservation before.slot)] := by
  cases hmoves.executions with
  | same _ hsilent => exact Or.inl hsilent
  | added _ _ hsilent => exact Or.inl hsilent
  | @continued place before after hfound hcontinues =>
      rcases hcontinues.output with
        hsilent | ⟨request, dispatch, hphase, hpast, hslot, hemitted⟩
      · exact Or.inl hsilent
      · exact Or.inr ⟨place, dispatch, before, after, request, hfound,
          by rw [hcontinues.executions, if_pos rfl], hphase, hpast, hslot,
          hcontinues.facts, hemitted⟩

/-- Refusals hand nothing over. -/
theorem filterMap_silent {emitted : List Report} (hsilent : Silent emitted) :
    emitted.filterMap Report.reservation = [] := by
  rw [List.filterMap_eq_nil_iff]
  intro report hreport
  obtain ⟨failure, rfl⟩ := hsilent report hreport
  rfl

theorem Execution.Sound.reservation {client : Client} {call : Call}
    {execution : Execution} (hsound : execution.Sound client call) :
    call.reservation execution.slot =
      if execution.slot.isSome then some execution.facts.write else none := by
  cases hslot : execution.slot with
  | none => rfl
  | some slot =>
      obtain ⟨entry, hentry, hwrite, -⟩ := hsound.held slot hslot
      simp [Call.reservation, hentry, hwrite]

/-- An execution about to hand a request over holds a write no report is for. -/
theorem not_handed {client : Client} {call : Call} {reports : List Report}
    (hsound : Sound client call reports) {place dispatch : ℕ}
    {before : Execution} {request : OutgoingRequest}
    (hbefore : call.executions[place]? = some before)
    (hphase : before.phase = .sending request dispatch)
    (hslot : before.slot.isSome = true) :
    before.facts.write ∉ reports.filterMap Report.reservation := by
  intro hmem
  obtain ⟨rival, execution, hexecution, hpast, hheld, hwrite⟩ :=
    hsound.accounted _ hmem
  obtain ⟨slot, hslot⟩ := Option.isSome_iff_exists.mp hslot
  obtain ⟨found, hfound⟩ := Option.isSome_iff_exists.mp hheld
  obtain ⟨entry, hentry, hentryWrite, -⟩ :=
    (hsound.executions place before hbefore).held slot hslot
  obtain ⟨other, hother, hotherWrite, -⟩ :=
    (hsound.executions rival execution hexecution).held found hfound
  have hsame : slot = found := place_unique hsound.distinct hentry hother
    hentryWrite (by rw [hotherWrite, hwrite])
  have hplace : place = rival := hsound.exclusive place rival before execution
    slot hbefore hexecution hslot (hsame ▸ hfound)
  rw [hplace, hexecution] at hbefore
  rw [Option.some.inj hbefore, hphase] at hpast
  exact hpast

theorem permitted_handed {client : Client} {call : Call}
    {before : Execution} {request : OutgoingRequest} {dispatch : ℕ}
    (hsound : before.Sound client call)
    (hphase : before.phase = .sending request dispatch) :
    Permitted client call
      (.handed request before.facts (call.reservation before.slot)) := by
  have hestablished := hsound.established
  simp only [Execution.Established, hphase] at hestablished
  have hreservation := hsound.reservation
  refine ⟨fun hwrite => ?_, fun write hwrite => ?_⟩
  · rw [hreservation, if_pos (hestablished.1 hwrite)]
    rfl
  · obtain ⟨slot, hslot⟩ : ∃ slot, before.slot = some slot := by
      cases hslot : before.slot with
      | none =>
          rw [hslot] at hwrite
          cases hwrite
      | some slot => exact ⟨slot, rfl⟩
    have hsome : before.slot.isSome = true := by rw [hslot]; rfl
    rw [hreservation, if_pos hsome] at hwrite
    obtain rfl := Option.some.inj hwrite
    obtain ⟨entry, hentry, hentryWrite, -⟩ := hsound.held slot hslot
    exact ⟨rfl, mem_reservations.mpr ⟨slot, entry, hentry, hentryWrite⟩,
      hestablished.2 hsome⟩

theorem sound_step {client : Client} {call later : Call} {event : Event}
    {emitted reports : List Report} (hsound : Sound client call reports)
    (hmove : call.step client event = some (later, emitted)) :
    Sound client later (reports ++ emitted) := by
  have hmoves := moves_step hsound hmove
  have hold : ∀ report ∈ reports, Permitted client later report :=
    fun report hreport => (hsound.permitted report hreport).moves hmoves
  have haccounted : ∀ write ∈ reports.filterMap Report.reservation,
      ∃ (place : ℕ) (execution : Execution),
        later.executions[place]? = some execution ∧ execution.phase.past ∧
          execution.slot.isSome = true ∧ execution.facts.write = write := by
    intro write hwrite
    obtain ⟨place, execution, hexecution, hpast, hslot, hfacts⟩ :=
      hsound.accounted write hwrite
    obtain ⟨after, hafter, hpast, hslot, hsame⟩ :=
      accounted_step hmoves hexecution hpast hslot
    exact ⟨place, after, hafter, hpast, hslot, by rw [hsame, hfacts]⟩
  have hledger : (reservations later.ledger).Nodup ∧
      ∀ write ∈ reservations later.ledger, later.capacity.has write = true := by
    rw [hmoves.capacity]
    rcases hmoves.ledger.reserved with hsame | ⟨write, hadded, hhas, hfresh⟩
    · rw [hsame]
      exact ⟨hsound.distinct, hsound.declared⟩
    · rw [hadded]
      refine ⟨List.nodup_append.mpr ⟨hsound.distinct, List.nodup_singleton _,
        fun _ hleft _ hright => ?_⟩, fun other hother => ?_⟩
      · rw [List.mem_singleton] at hright
        rw [hright]
        exact fun hsame => hfresh (hsame ▸ hleft)
      · rcases List.mem_append.mp hother with hold | hnew
        · exact hsound.declared other hold
        · rw [List.mem_singleton.mp hnew]
          exact hhas
  have hreports : ((reports ++ emitted).filterMap Report.reservation).Nodup ∧
      (∀ write ∈ (reports ++ emitted).filterMap Report.reservation,
        ∃ (place : ℕ) (execution : Execution),
          later.executions[place]? = some execution ∧ execution.phase.past ∧
            execution.slot.isSome = true ∧ execution.facts.write = write) ∧
      ∀ report ∈ reports ++ emitted, Permitted client later report := by
    rw [List.filterMap_append]
    rcases emitted_cases hmoves with hsilent |
      ⟨place, dispatch, before, after, request, hbefore, hafter, hphase, hpast,
        hslot, hfacts, rfl⟩
    · rw [filterMap_silent hsilent, List.append_nil]
      refine ⟨hsound.once, haccounted, fun report hreport => ?_⟩
      rcases List.mem_append.mp hreport with hreport | hreport
      · exact hold report hreport
      · obtain ⟨failure, rfl⟩ := hsilent report hreport
        trivial
    · have hexecution := hsound.executions place before hbefore
      have hpermitted := (permitted_handed hexecution hphase).moves hmoves
      have hhanded : ∀ write ∈ [Report.handed request before.facts
          (call.reservation before.slot)].filterMap Report.reservation,
          before.slot.isSome = true ∧ write = before.facts.write := by
        intro write hwrite
        obtain ⟨report, hreport, hreservation⟩ := List.mem_filterMap.mp hwrite
        rw [List.mem_singleton.mp hreport] at hreservation
        have hreservation : call.reservation before.slot = some write :=
          hreservation
        rw [hexecution.reservation] at hreservation
        split at hreservation
        · rename_i hsome
          exact ⟨hsome, (Option.some.inj hreservation).symm⟩
        · cases hreservation
      refine ⟨List.nodup_append.mpr ⟨hsound.once, ?_,
        fun write hleft other hright => ?_⟩, fun write hwrite => ?_,
        fun report hreport => ?_⟩
      · cases hreservation : call.reservation before.slot with
        | none => exact List.nodup_nil
        | some write => exact List.nodup_singleton write
      · obtain ⟨hsome, rfl⟩ := hhanded other hright
        intro hsame
        exact not_handed hsound hbefore hphase hsome (hsame ▸ hleft)
      · rcases List.mem_append.mp hwrite with hwrite | hwrite
        · exact haccounted write hwrite
        · obtain ⟨hsome, rfl⟩ := hhanded write hwrite
          exact ⟨place, after, hafter, hpast, by rw [hslot, hsome],
            by rw [hfacts]⟩
      · rcases List.mem_append.mp hreport with hreport | hreport
        · exact hold report hreport
        · rw [List.mem_singleton.mp hreport]
          exact hpermitted
  exact {
    distinct := hledger.1
    declared := hledger.2
    cells := hmoves.cells hsound.cells
    executions := fun _ _ hafter => executions_sound hsound hmoves hafter
    exclusive := fun _ _ _ _ _ hfirst hsecond hslot hother =>
      exclusive_step hsound hmoves hfirst hsecond hslot hother
    once := hreports.1
    accounted := hreports.2.1
    permitted := hreports.2.2 }

/-! ## Runs -/

variable {Arguments : Type} {client : Client}
  {declared : List (JsString × StepDeclaration Arguments)}
  {arguments : Arguments}

theorem sound_init {call : Call}
    (hinit : (calls client declared arguments).init call) :
    Sound client call [] := by
  obtain ⟨capacity, -, rfl⟩ := hinit
  exact {
    distinct := List.nodup_nil
    declared := fun _ hmem => by cases hmem
    cells := fun _ _ _ hsend => by simp at hsend
    executions := fun _ _ hexecution => by simp at hexecution
    exclusive := fun _ _ _ _ _ hfirst => by simp at hfirst
    once := List.nodup_nil
    accounted := fun _ hmem => by cases hmem
    permitted := fun _ hmem => by cases hmem }

theorem sound_run {call : Call} {reports : List Report}
    (hrun : (calls client declared arguments).Run call reports) :
    Sound client call reports :=
  hrun.invariant (fun _ hinit => sound_init hinit)
    fun _ _ _ _ _ hsound hmove => sound_step hsound hmove

/-- The capacity a call runs with is the one snapshotted before it. -/
def Snapshotted (client : Client)
    (declared : List (JsString × StepDeclaration Arguments))
    (arguments : Arguments) (capacity : WriteCapacity) : Prop :=
  capacity = implicitCapacity ∨ (accepted declared = true ∧
    capacityOf client.grammar arguments [] declared = some capacity)

/-- Every step only extends the ledger, whatever state it starts from. -/
theorem sound_leads {call later : Call} {reports : List Report}
    (hsound : Sound client call reports)
    (hleads : (calls client declared arguments).Leads call later) :
    later.capacity = call.capacity ∧ Kept call.ledger later.ledger := by
  have hpersist : ∃ reports, Sound client later reports ∧
      later.capacity = call.capacity ∧ Kept call.ledger later.ledger := by
    refine hleads.persist (motive := fun state => ∃ reports,
      Sound client state reports ∧ state.capacity = call.capacity ∧
        Kept call.ledger state.ledger) ?_ ⟨reports, hsound, rfl, Kept.refl _⟩
    rintro state event next emitted ⟨reports, hstate, hcapacity, hkept⟩ hmove
    have hmoves := moves_step hstate hmove
    exact ⟨_, sound_step hstate hmove, hmoves.capacity.trans hcapacity,
      hkept.trans hmoves.ledger.kept⟩
  obtain ⟨_, -, hlater⟩ := hpersist
  exact hlater

theorem snapshotted_run {call : Call} {reports : List Report}
    (hrun : (calls client declared arguments).Run call reports) :
    Snapshotted client declared arguments call.capacity := by
  refine (hrun.invariant (motive := fun call reports => Sound client call reports ∧
    Snapshotted client declared arguments call.capacity) ?_ ?_).2
  · rintro call hinit
    refine ⟨sound_init hinit, ?_⟩
    obtain ⟨capacity, hcapacity, rfl⟩ := hinit
    exact hcapacity
  · rintro call reports event later emitted ⟨hsound, hcapacity⟩ hmove
    refine ⟨sound_step hsound hmove, ?_⟩
    rw [(moves_step hsound hmove).capacity]
    exact hcapacity

/-- In every run of a call, a declared write is reserved at most once and at most
one request is handed to `fetch` under it; a request that is not positively a
read is handed over under a reservation of its own write; a bulk item's request
has the key of the request snapshotted for it; and no reservation is ever
released. -/
theorem writes_sent_once (client : Client)
    (declared : List (JsString × StepDeclaration Arguments))
    (arguments : Arguments) {call : Call} {reports : List Report}
    (hrun : (calls client declared arguments).Run call reports) :
    Snapshotted client declared arguments call.capacity ∧
      (reservations call.ledger).Nodup ∧
      (∀ write ∈ reservations call.ledger, call.capacity.has write = true) ∧
      (reports.filterMap Report.reservation).Nodup ∧
      (∀ request facts reservation,
        Report.handed request facts reservation ∈ reports →
          (reservation = none → readRequest request.prepared.classification
            request.prepared.method request.headers = true) ∧
          ∀ write, reservation = some write →
            write = facts.write ∧ write ∈ reservations call.ledger ∧
              ∀ expected, call.capacity.request write = some expected →
                ∃ key, writeRequestKey client.grammar
                    (actualRequest request.prepared expected) = some key ∧
                  writeRequestKey client.grammar expected = some key) ∧
      ∀ later, (calls client declared arguments).Leads call later →
        later.capacity = call.capacity ∧
          reservations call.ledger <+: reservations later.ledger ∧
          ∀ (slot : ℕ) (entry : Dispatch), call.ledger[slot]? = some entry →
            ∃ kept, later.ledger[slot]? = some kept ∧
              kept.write = entry.write ∧
              (entry.state ≠ .reserved → kept.state ≠ .reserved) := by
  have hsound := sound_run hrun
  refine ⟨snapshotted_run hrun, hsound.distinct, hsound.declared, hsound.once,
    fun request facts reservation hreport => ?_, fun later hleads => ?_⟩
  · obtain ⟨hwrite, hreserved⟩ := hsound.permitted _ hreport
    refine ⟨fun hnone => ?_, hreserved⟩
    rw [hnone] at hwrite
    by_contra hread
    have htrue : request.write = true := by
      simpa only [OutgoingRequest.write, Bool.not_eq_true', Bool.not_eq_true]
        using hread
    exact absurd (hwrite htrue) (by decide)
  · obtain ⟨hcapacity, hkept⟩ := sound_leads hsound hleads
    exact ⟨hcapacity, hkept.extends, hkept⟩

/-- A bulk step with one item, sent as a form. -/
def exampleDeclared : List (JsString × StepDeclaration Unit) :=
  let text := JsString.ofAscii
  [(text "charge", .items 1 (fun _ => [text "a"]) fun item _ =>
    { method := .post
      path := text "/charges"
      template := text "/charges"
      form := some [(text "id", item)] })]

def exampleClient : Client :=
  let text := JsString.ofAscii
  { grammar :=
      { authority := fun _ _ => some
          { protocol := text "https:"
            origin := text "https://request.example"
            hostname := text "request.example"
            username := []
            password := [] }
        acorn := fun _ => none }
    provider := text "Example"
    owned := true
    node := true }

def exampleRequest : PreparedRequest :=
  let text := JsString.ofAscii
  { method := .post
    path := text "/charges"
    search := []
    headers := [(text "content-type", text "application/x-www-form-urlencoded")]
    body := .content (some (text "id=a"))
    classification := some .write }

/-- The item is sent, and a retry executes the same request again. -/
def exampleEvents : List Event :=
  let text := JsString.ofAscii
  let services : Services := { classification := .write }
  [.sendItem services (text "charge") (text "a"), .beginSend 0,
    .claim 0 services, .prepare 0 services exampleRequest, .decide 0, .check 0,
    .record 0, .fetch 0, .dispatch 0 true, .lose 0, .beginSend 0,
    .claim 1 services]

theorem writes_sent_once_retry :
    let item : LogicalWrite :=
      { step := JsString.ofAscii "charge", item := some (JsString.ofAscii "a") }
    ∃ capacity call request facts,
      capacityOf exampleClient.grammar () [] exampleDeclared = some capacity ∧
        (calls exampleClient exampleDeclared ()).execute { capacity := capacity }
          exampleEvents = some (call, [.handed request facts (some item),
            .refused (.resendRefused 0)]) ∧
        (reservations call.ledger).Nodup ∧
        ∀ expected, call.capacity.request item = some expected →
          ∃ key, writeRequestKey exampleClient.grammar
              (actualRequest request.prepared expected) = some key ∧
            writeRequestKey exampleClient.grammar expected = some key := by
  intro item
  obtain ⟨capacity, call, request, facts, hcapacity, hexecute⟩ :
      ∃ capacity call request facts,
        capacityOf exampleClient.grammar () [] exampleDeclared = some capacity ∧
          (calls exampleClient exampleDeclared ()).execute
            { capacity := capacity } exampleEvents =
              some (call, [.handed request facts (some item),
                .refused (.resendRefused 0)]) :=
    ⟨_, _, _, _, rfl, rfl⟩
  have hstart : (calls exampleClient exampleDeclared ()).Run
      { capacity := capacity } [] :=
    .start ⟨capacity, Or.inr ⟨by decide, hcapacity⟩, rfl⟩
  obtain ⟨-, hdistinct, -, -, hhanded, -⟩ :=
    writes_sent_once exampleClient exampleDeclared ()
      (hstart.execute exampleEvents hexecute)
  exact ⟨capacity, call, request, facts, hcapacity, hexecute, hdistinct,
    ((hhanded request facts (some item) List.mem_cons_self).2 item rfl).2.2⟩

end Connecta.Dispatches
