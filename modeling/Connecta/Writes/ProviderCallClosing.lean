import Connecta.Writes.ProviderCallRuns

/-!
# Nothing leaves beneath a closed call

The leases form a graph: each hears of the one it was opened on.  A closed lease
has told its listeners in every reachable state, and a boundary's lease is closed
or listens to the lease of the context it was entered on.  Closing a call
therefore closes the lease of every boundary beneath it, those of later entries
included, and a resource request needs the lease of its own context.
-/

namespace Connecta.ProviderCalls

open Connecta.Foundation (Propagation)
open Connecta.Runtime
open Connecta.Transition
open Connecta.Writes (Classification LogicalCall ProviderRequest)

variable {state later : State} {event : Event} {emitted outputs : List Report}
  {leases : List CallLease} {lease : ℕ}

/-! ## Leases -/

def Closed (leases : List CallLease) (lease : ℕ) : Prop :=
  ∃ found, leases[lease]? = some found ∧ found.closed = true

def Listens (leases : List CallLease) (outer lease : ℕ) : Prop :=
  lease ∈ State.revoking.targets leases outer

/-- Leases are added and closed, and keep their listeners. -/
structure Extends (leases later : List CallLease) : Prop where
  length : leases.length ≤ later.length
  closed : ∀ lease, Closed leases lease → Closed later lease
  listens : ∀ outer lease, Listens leases outer lease → Listens later outer lease

/-- A closed lease has told its listeners. -/
structure Told (leases : List CallLease) : Prop where
  valid : ∀ outer lease, Listens leases outer lease → lease < leases.length
  told : ∀ outer lease, Listens leases outer lease → Closed leases outer →
    Closed leases lease

theorem Extends.refl (leases : List CallLease) : Extends leases leases :=
  ⟨le_rfl, fun _ => id, fun _ _ => id⟩

theorem closed_lt (hclosed : Closed leases lease) : lease < leases.length := by
  obtain ⟨_, hfound, -⟩ := hclosed
  exact (List.getElem?_eq_some_iff.mp hfound).1

theorem leaseClosed_of_closed (hleases : Closed state.leases lease) :
    state.leaseClosed (some lease) = true := by
  obtain ⟨found, hfound, hclosed⟩ := hleases
  rw [State.leaseClosed, Option.bind_some, hfound]
  exact hclosed

theorem listens_lt {outer : ℕ} (hlistens : Listens leases outer lease) :
    outer < leases.length := by
  by_contra hge
  have hnone := List.getElem?_eq_none (not_lt.mp hge)
  simp only [Listens, State.revoking, hnone, Option.elim_none] at hlistens
  cases hlistens

/-! ## A lease is added -/

/-- The leases after one was added, which one of the others may tell. -/
def added (leases : List CallLease) (listener : Option ℕ) (closed : Bool) : List CallLease :=
  listener.elim leases (fun outer => leases.modify outer fun lease =>
    { lease with listeners := lease.listeners ++ [leases.length] }) ++ [{ closed := closed }]

section Added

variable {listener : Option ℕ} {closed : Bool}

theorem added_length : (added leases listener closed).length = leases.length + 1 := by
  cases listener <;> simp [added]

theorem added_new :
    (added leases listener closed)[leases.length]? = some { closed := closed } := by
  cases listener <;> simp [added]

theorem added_old {index : ℕ} {found : CallLease} (hfound : leases[index]? = some found) :
    (added leases listener closed)[index]? = some { found with
      listeners := found.listeners ++ if listener = some index then [leases.length] else [] } := by
  have hlt := (List.getElem?_eq_some_iff.mp hfound).1
  cases listener with
  | none =>
      rw [added, Option.elim_none, List.getElem?_append_left hlt, hfound, if_neg (by simp),
        List.append_nil]
  | some outer =>
      rw [added, Option.elim_some, List.getElem?_append_left (by simpa using hlt),
        List.getElem?_modify, hfound]
      by_cases hindex : outer = index <;> simp [hindex]

theorem added_closed {index : ℕ} (hindex : index < leases.length) :
    Closed (added leases listener closed) index ↔ Closed leases index := by
  have hfound := List.getElem?_eq_getElem hindex
  have hadded : (added leases listener closed)[index]? = some _ := added_old hfound
  constructor
  · rintro ⟨found, hlater, hclosed⟩
    obtain rfl := Option.some.inj (hadded.symm.trans hlater)
    exact ⟨_, hfound, hclosed⟩
  · rintro ⟨found, hearlier, hclosed⟩
    obtain rfl := Option.some.inj (hfound.symm.trans hearlier)
    exact ⟨_, hadded, hclosed⟩

theorem added_listens {outer target : ℕ}
    (hlistener : ∀ outer, listener = some outer → outer < leases.length) :
    Listens (added leases listener closed) outer target ↔
      Listens leases outer target ∨ (listener = some outer ∧ target = leases.length) := by
  simp only [Listens, State.revoking]
  by_cases hlt : outer < leases.length
  · have hfound := List.getElem?_eq_getElem hlt
    rw [added_old hfound, hfound, Option.elim_some, Option.elim_some, List.mem_append]
    split_ifs with houter <;> simp [houter]
  · have hnone : (added leases listener closed)[outer]?.elim [] CallLease.listeners = [] := by
      by_cases heq : outer = leases.length
      · rw [heq, added_new, Option.elim_some]
      · have hlength : (added leases listener closed).length = _ := added_length
        rw [List.getElem?_eq_none (by omega), Option.elim_none]
    rw [hnone, List.getElem?_eq_none (not_lt.mp hlt), Option.elim_none]
    simp only [List.not_mem_nil, false_or, false_iff, not_and]
    intro houter
    exact (hlt (hlistener outer houter)).elim

theorem added_extends (hlistener : ∀ outer, listener = some outer → outer < leases.length) :
    Extends leases (added leases listener closed) where
  length := by
    rw [added_length]
    exact Nat.le_add_right ..
  closed index hindex := (added_closed (closed_lt hindex)).mpr hindex
  listens _ _ htarget := (added_listens hlistener).mpr (Or.inl htarget)

theorem added_told (htold : Told leases)
    (hlistener : ∀ outer, listener = some outer → outer < leases.length)
    (hopen : ∀ outer, listener = some outer → ¬ Closed leases outer) :
    Told (added leases listener closed) where
  valid outer target htarget := by
    rw [added_length]
    rcases (added_listens hlistener).mp htarget with hbefore | ⟨-, rfl⟩
    · exact Nat.lt_succ_of_lt (htold.valid outer target hbefore)
    · exact Nat.lt_add_one _
  told outer target htarget houter := by
    rcases (added_listens hlistener).mp htarget with hbefore | ⟨hlisten, -⟩
    · refine (added_closed (htold.valid outer target hbefore)).mpr ?_
      exact htold.told outer target hbefore ((added_closed (listens_lt hbefore)).mp houter)
    · have hlt := hlistener outer hlisten
      exact (hopen outer hlisten ((added_closed hlt).mp houter)).elim

end Added

/-- A lease is opened where every closed one has told its listeners: it is closed,
or it listens to its parent. -/
theorem openCall_told (parent : Option ℕ) (htold : Told state.leases)
    (hparent : ∀ outer, parent = some outer → outer < state.leases.length) :
    Extends state.leases (state.openCall parent).1.leases ∧
      Told (state.openCall parent).1.leases ∧
      state.leases.length < (state.openCall parent).1.leases.length ∧
      ∀ outer, parent = some outer →
        Closed (state.openCall parent).1.leases state.leases.length ∨
          Listens (state.openCall parent).1.leases outer state.leases.length := by
  by_cases hborn : (!state.requestOpen || state.leaseClosed parent) = true
  · have heq : (state.openCall parent).1.leases = added state.leases none true := by
      simp only [State.openCall, hborn, if_true]
      rfl
    rw [heq]
    refine ⟨added_extends (by simp), added_told htold (by simp) (by simp), ?_, ?_⟩
    · rw [added_length]
      exact Nat.lt_add_one _
    · exact fun _ _ => Or.inl ⟨_, added_new, rfl⟩
  · have heq : (state.openCall parent).1.leases = added state.leases parent false := by
      simp only [State.openCall, Bool.not_eq_true _ ▸ hborn]
      cases parent <;> rfl
    rw [heq]
    refine ⟨added_extends hparent, added_told htold hparent ?_, ?_, ?_⟩
    · rintro outer rfl hclosed
      rw [leaseClosed_of_closed hclosed, Bool.or_true] at hborn
      exact hborn rfl
    · rw [added_length]
      exact Nat.lt_add_one _
    · exact fun outer houter => Or.inr ((added_listens hparent).mpr (Or.inr ⟨houter, rfl⟩))

/-! ## Leases are revoked -/

/-- What a walk through the leases does, with its own leases told. -/
structure Revoked (leases later : List CallLease) : Prop where
  listeners : later.map CallLease.listeners = leases.map CallLease.listeners
  closed : ∀ lease, Closed leases lease → Closed later lease
  fresh : ∀ lease, Closed later lease → Closed leases lease ∨
    ∀ target, Listens later lease target → Closed later target

theorem listens_congr {later : List CallLease} {outer : ℕ}
    (hsame : later.map CallLease.listeners = leases.map CallLease.listeners) :
    Listens later outer lease ↔ Listens leases outer lease := by
  have hget : (later[outer]?).map CallLease.listeners =
      (leases[outer]?).map CallLease.listeners := by
    rw [← List.getElem?_map, ← List.getElem?_map, hsame]
  have htargets : ∀ leases : List CallLease, Listens leases outer lease ↔
      lease ∈ ((leases[outer]?).map CallLease.listeners).getD [] := by
    intro leases
    simp only [Listens, State.revoking]
    cases leases[outer]? <;> rfl
  rw [htargets, htargets, hget]

theorem Revoked.extends {later : List CallLease} (hrevoked : Revoked leases later) :
    Extends leases later where
  length := by
    have hlength := congrArg List.length hrevoked.listeners
    rw [List.length_map, List.length_map] at hlength
    exact hlength.ge
  closed := hrevoked.closed
  listens _ _ := (listens_congr hrevoked.listeners).mpr

theorem Revoked.told {later : List CallLease} (hrevoked : Revoked leases later)
    (htold : Told leases) : Told later where
  valid outer target htarget := lt_of_lt_of_le
    (htold.valid outer target ((listens_congr hrevoked.listeners).mp htarget))
    hrevoked.extends.length
  told outer target htarget houter := by
    rcases hrevoked.fresh outer houter with hbefore | hall
    · refine hrevoked.closed target (htold.told outer target ?_ hbefore)
      exact (listens_congr hrevoked.listeners).mp htarget
    · exact hall target htarget

theorem revoking_visit {later : List CallLease} {passes : Bool}
    (hvisit : State.revoking.visit leases lease = some (later, passes)) :
    Closed later lease ∧ later.map CallLease.listeners = leases.map CallLease.listeners ∧
      (∀ index, Closed leases index → Closed later index) ∧
      (∀ index, Closed later index →
        Closed leases index ∨ index = lease ∧ passes = true) ∧
      (passes = true → ¬ Closed leases lease) := by
  obtain ⟨found, hfound, hvisit⟩ := Option.map_eq_some_iff.mp hvisit
  have hlt := (List.getElem?_eq_some_iff.mp hfound).1
  by_cases hclosed : found.closed = true
  · rw [if_pos hclosed] at hvisit
    obtain ⟨rfl, rfl⟩ := Prod.mk.inj hvisit
    exact ⟨⟨found, hfound, hclosed⟩, rfl, fun _ => id, fun _ => Or.inl, by simp⟩
  · rw [if_neg hclosed] at hvisit
    obtain ⟨rfl, rfl⟩ := Prod.mk.inj hvisit
    have hself : Closed (leases.set lease { found with closed := true }) lease :=
      ⟨_, List.getElem?_set_self hlt, rfl⟩
    refine ⟨hself, ?_, ?_, ?_, ?_⟩
    · refine List.ext_getElem? fun index => ?_
      by_cases hindex : lease = index
      · subst hindex
        rw [List.getElem?_map, List.getElem?_map, List.getElem?_set_self hlt, hfound]
        rfl
      · rw [List.getElem?_map, List.getElem?_map, List.getElem?_set_ne hindex]
    · rintro index hindex
      by_cases hself' : lease = index
      · exact hself' ▸ hself
      · rwa [Closed, List.getElem?_set_ne hself']
    · intro index hindex
      by_cases hself' : lease = index
      · exact Or.inr ⟨hself'.symm, rfl⟩
      · rw [Closed, List.getElem?_set_ne hself'] at hindex
        exact Or.inl hindex
    · rintro - ⟨before, hbefore, hwas⟩
      obtain rfl := Option.some.inj (hfound.symm.trans hbefore)
      exact hclosed hwas

theorem revoking_spread {later : List CallLease} {fuel : ℕ}
    (hspread : State.revoking.spread fuel leases lease = some later) :
    Revoked leases later ∧ Closed later lease := by
  refine Propagation.spread_sound Revoked Closed ?_ ?_ ?_ ?_ ?_ fuel hspread
  · exact fun leases => ⟨rfl, fun _ => id, fun _ => Or.inl⟩
  · intro first second third hfirst hsecond
    refine ⟨hsecond.listeners.trans hfirst.listeners,
      fun lease => hsecond.closed lease ∘ hfirst.closed lease, ?_⟩
    intro lease hlease
    rcases hsecond.fresh lease hlease with hbefore | hall
    · rcases hfirst.fresh lease hbefore with hbefore' | hall
      · exact Or.inl hbefore'
      · refine Or.inr fun target htarget => hsecond.closed target (hall target ?_)
        exact (listens_congr hsecond.listeners).mp htarget
    · exact Or.inr hall
  · exact fun leases later lease hrevoked => hrevoked.closed lease
  · intro leases later lease hvisit
    obtain ⟨hclosed, hlisteners, hkept, hfresh, -⟩ := revoking_visit hvisit
    refine ⟨⟨hlisteners, hkept, fun index hindex => Or.inl ?_⟩, hclosed⟩
    exact (hfresh index hindex).resolve_right fun hpasses => Bool.false_ne_true hpasses.2
  · intro leases later final lease hvisit hrevoked hmet
    obtain ⟨hclosed, hlisteners, hkept, hfresh, -⟩ := revoking_visit hvisit
    refine ⟨⟨hrevoked.listeners.trans hlisteners,
      fun index => hrevoked.closed index ∘ hkept index, ?_⟩, hrevoked.closed lease hclosed⟩
    intro index hindex
    rcases hrevoked.fresh index hindex with hbefore | hall
    · rcases hfresh index hbefore with hbefore' | ⟨rfl, -⟩
      · exact Or.inl hbefore'
      · exact Or.inr fun target htarget =>
          hmet target ((listens_congr hrevoked.listeners).mp htarget)
    · exact Or.inr hall

open Classical in
/-- The walk ends: a lease passes on only as it closes. -/
theorem revoking_spread_isSome (htold : Told leases) (hlease : lease < leases.length) :
    ∃ later, State.revoking.spread (leases.length + 1) leases lease = some later := by
  have hvisit : ∀ (later : List CallLease) (node : ℕ),
      later.map CallLease.listeners = leases.map CallLease.listeners →
        node ∈ Finset.range leases.length → ∃ next passes,
          State.revoking.visit later node = some (next, passes) ∧
            next.map CallLease.listeners = leases.map CallLease.listeners ∧
              (∀ other, Closed later other → Closed next other) ∧
                (passes = true → ¬ Closed later node ∧ Closed next node) := by
    intro later node hsame hnode
    have hlength := congrArg List.length hsame
    rw [List.length_map, List.length_map] at hlength
    have hlt := hlength ▸ Finset.mem_range.mp hnode
    obtain ⟨⟨next, passes⟩, hvisit⟩ : ∃ next,
        State.revoking.visit later node = some next :=
      ⟨_, congrArg (Option.map _) (List.getElem?_eq_getElem hlt)⟩
    obtain ⟨hclosed, hlisteners, hkept, -, hpasses⟩ := revoking_visit hvisit
    exact ⟨next, passes, hvisit, hlisteners.trans hsame, hkept,
      fun hpass => ⟨hpasses hpass, hclosed⟩⟩
  have htargets : ∀ (later : List CallLease) (node : ℕ),
      later.map CallLease.listeners = leases.map CallLease.listeners →
        ∀ target ∈ State.revoking.targets later node,
          target ∈ Finset.range leases.length := by
    intro later node hsame target htarget
    exact Finset.mem_range.mpr (htold.valid node target ((listens_congr hsame).mp htarget))
  have hfuel : Propagation.pending (Finset.range leases.length) Closed leases <
      leases.length + 1 := by
    have hle := Finset.card_filter_le (Finset.range leases.length)
      fun node => ¬ Closed leases node
    rw [Finset.card_range] at hle
    exact Nat.lt_succ_of_le hle
  obtain ⟨final, hfinal, -⟩ := Propagation.spread_isSome State.revoking _ _ Closed hvisit
    htargets _ rfl (Finset.mem_range.mpr hlease) hfuel
  exact ⟨final, hfinal⟩

theorem revokes_revoked {target : Option ℕ} {later : List CallLease}
    (hrevokes : Revokes leases target later) :
    Revoked leases later ∧ ∀ lease, target = some lease → Closed later lease := by
  cases target with
  | none =>
      obtain rfl : later = leases := hrevokes
      exact ⟨⟨rfl, fun _ => id, fun _ => Or.inl⟩, by simp⟩
  | some lease =>
      obtain ⟨hrevoked, hclosed⟩ := revoking_spread hrevokes
      exact ⟨hrevoked, fun _ hlease => Option.some.inj hlease ▸ hclosed⟩

/-! ## Calls are closed -/

section Calls

variable {calls more : List ProviderCall} {call : ℕ}

/-- A call's nested calls were entered after it. -/
def Nests (calls : List ProviderCall) : Prop :=
  ∀ call, ∀ inner ∈ State.closing.targets calls call, call < inner ∧ inner < calls.length

theorem closing_targets_congr
    (hsame : more.map ProviderCall.nested = calls.map ProviderCall.nested) :
    State.closing.targets more call = State.closing.targets calls call := by
  have hget : (more[call]?).map ProviderCall.nested = (calls[call]?).map ProviderCall.nested := by
    rw [← List.getElem?_map, ← List.getElem?_map, hsame]
  have htargets : ∀ calls : List ProviderCall, State.closing.targets calls call =
      ((calls[call]?).map ProviderCall.nested).getD [] := by
    intro calls
    simp only [State.closing]
    cases calls[call]? <;> rfl
  rw [htargets, htargets, hget]

theorem length_of_nested
    (hsame : more.map ProviderCall.nested = calls.map ProviderCall.nested) :
    more.length = calls.length := by
  have hlength := congrArg List.length hsame
  rwa [List.length_map, List.length_map] at hlength

theorem nests_congr (hsame : more.map ProviderCall.nested = calls.map ProviderCall.nested)
    (hnests : Nests calls) : Nests more := by
  intro call inner hinner
  rw [length_of_nested hsame]
  exact hnests call inner (closing_targets_congr hsame ▸ hinner)

theorem closing_visit {passes : Bool}
    (hvisit : State.closing.visit calls call = some (more, passes)) :
    more.map ProviderCall.nested = calls.map ProviderCall.nested := by
  obtain ⟨found, hfound, hvisit⟩ := Option.map_eq_some_iff.mp hvisit
  obtain ⟨rfl, -⟩ := Prod.mk.inj hvisit
  have hlt := (List.getElem?_eq_some_iff.mp hfound).1
  refine List.ext_getElem? fun index => ?_
  by_cases hindex : call = index
  · subst hindex
    rw [List.getElem?_map, List.getElem?_map, List.getElem?_set_self hlt, hfound]
    rfl
  · rw [List.getElem?_map, List.getElem?_map, List.getElem?_set_ne hindex]

theorem closing_spread {fuel : ℕ} (hspread : State.closing.spread fuel calls call = some more) :
    more.map ProviderCall.nested = calls.map ProviderCall.nested := by
  have hboth : more.map ProviderCall.nested = calls.map ProviderCall.nested ∧ True := by
    refine Propagation.spread_sound
      (fun calls more => more.map ProviderCall.nested = calls.map ProviderCall.nested)
      (fun _ _ => True) ?_ ?_ ?_ ?_ ?_ fuel hspread
    · exact fun _ => rfl
    · exact fun _ _ _ hfirst hsecond => hsecond.trans hfirst
    · exact fun _ _ _ _ => id
    · exact fun _ _ _ hvisit => ⟨closing_visit hvisit, trivial⟩
    · exact fun _ _ _ _ hvisit hrest _ => ⟨hrest.trans (closing_visit hvisit), trivial⟩
  exact hboth.1

/-- The walk ends: it descends to calls entered later. -/
theorem closing_spread_isSome (hnests : Nests calls) (hcall : call < calls.length) :
    ∃ more, State.closing.spread (calls.length + 1) calls call = some more := by
  have hvisit : ∀ (more : List ProviderCall) (node : ℕ),
      more.map ProviderCall.nested = calls.map ProviderCall.nested ∧ node < calls.length →
        ∃ next passes, State.closing.visit more node = some (next, passes) ∧
          (∀ other, more.map ProviderCall.nested = calls.map ProviderCall.nested ∧
              other < calls.length →
            next.map ProviderCall.nested = calls.map ProviderCall.nested ∧
              other < calls.length) ∧
          ∀ target ∈ State.closing.targets next node,
            (next.map ProviderCall.nested = calls.map ProviderCall.nested ∧
              target < calls.length) ∧ calls.length - target < calls.length - node := by
    rintro more node ⟨hsame, hnode⟩
    have hlength := length_of_nested hsame
    obtain ⟨⟨next, passes⟩, hvisit⟩ : ∃ next, State.closing.visit more node = some next :=
      ⟨_, congrArg (Option.map _) (List.getElem?_eq_getElem (hlength ▸ hnode))⟩
    have hnext := (closing_visit hvisit).trans hsame
    refine ⟨next, passes, hvisit, fun other hother => ⟨hnext, hother.2⟩, ?_⟩
    intro target htarget
    rw [closing_targets_congr hnext] at htarget
    have := hnests node target htarget
    exact ⟨⟨hnext, this.2⟩, by omega⟩
  obtain ⟨final, hfinal, -⟩ := Propagation.spread_isSome_of_rank State.closing
    (fun call => calls.length - call) _ hvisit (calls.length + 1) ⟨rfl, hcall⟩ (by omega)
  exact ⟨final, hfinal⟩

/-- A call is added, nested in an earlier one or in none. -/
theorem nests_append {parent : Option ℕ} {fresh : ProviderCall} (hnests : Nests calls)
    (hfresh : fresh.nested = []) :
    Nests (parent.elim calls (fun outer => calls.modify outer fun found =>
      { found with nested := found.nested ++ [calls.length] }) ++ [fresh]) := by
  intro call inner hinner
  have hlength : (parent.elim calls (fun outer => calls.modify outer fun found =>
      { found with nested := found.nested ++ [calls.length] })).length = calls.length := by
    cases parent <;> simp
  have hcall : call < calls.length ∧
      (inner ∈ State.closing.targets calls call ∨ inner = calls.length) := by
    simp only [State.closing] at hinner ⊢
    rw [List.getElem?_append, hlength] at hinner
    split at hinner
    · rename_i hlt
      have hfound := List.getElem?_eq_getElem hlt
      refine ⟨hlt, ?_⟩
      cases parent with
      | none => exact Or.inl hinner
      | some outer =>
          rw [Option.elim_some, List.getElem?_modify, hfound] at hinner
          rw [hfound]
          by_cases houter : outer = call
          · simpa [houter] using hinner
          · exact Or.inl (by simpa [houter] using hinner)
    · generalize call - calls.length = rest at hinner
      cases rest with
      | zero =>
          rw [List.getElem?_cons_zero, Option.elim_some, hfresh] at hinner
          cases hinner
      | succ rest => cases hinner
  rw [List.length_append, hlength, List.length_singleton]
  rcases hcall.2 with hbefore | rfl
  · have := hnests call inner hbefore
    omega
  · omega

end Calls

/-! ## Boundaries -/

/-- What every reachable state keeps of its contexts. -/
structure Sound (state : State) : Prop where
  told : Told state.leases
  nests : Nests state.calls
  lease : ∀ view ∈ state.views, ∀ lease, view.lease = some lease →
    lease < state.leases.length
  ledger : ∀ view ∈ state.views, ∀ call, view.providerLedger = some call →
    call < state.calls.length ∧ view.lease.isSome
  entered : ∀ view ∈ state.views, ∀ outer, view.entered = some outer →
    ∃ lease found, view.lease = some lease ∧ state.views[outer]? = some found ∧
      ∀ parent, found.lease = some parent →
        Closed state.leases lease ∨ Listens state.leases parent lease

/-- A boundary entered on a context, or on a boundary beneath it. -/
inductive Beneath (state : State) (context : ℕ) : ℕ → Prop where
  | itself : Beneath state context context
  | entered {outer boundary : ℕ} {view : View} (houter : Beneath state context outer)
      (hview : state.views[boundary]? = some view) (hentered : view.entered = some outer) :
      Beneath state context boundary

/-- Beneath a closed lease every lease is closed. -/
theorem Sound.beneath (hsound : Sound state) {context boundary : ℕ} {view : View}
    (hview : state.views[context]? = some view) {lease : ℕ} (hlease : view.lease = some lease)
    (hclosed : Closed state.leases lease) (hbeneath : Beneath state context boundary) :
    ∃ found inner, state.views[boundary]? = some found ∧ found.lease = some inner ∧
      Closed state.leases inner := by
  induction hbeneath with
  | itself => exact ⟨view, lease, hview, hlease, hclosed⟩
  | entered _ hboundary hentered ih =>
      obtain ⟨found, outer, hfound, houter, hclosed'⟩ := ih
      obtain ⟨inner, found', hinner, hfound', hlistens⟩ :=
        hsound.entered _ (List.mem_of_getElem? hboundary) _ hentered
      obtain rfl := Option.some.inj (hfound.symm.trans hfound')
      refine ⟨_, inner, hboundary, hinner, ?_⟩
      rcases hlistens outer houter with hborn | hlisten
      · exact hborn
      · exact hsound.told.told outer inner hlisten hclosed'

/-- What a step may add, with what has to be checked of it. -/
structure Grows (state later : State) (more : List View) : Prop where
  leases : Extends state.leases later.leases
  told : Told later.leases
  nests : Nests later.calls
  calls : state.calls.length ≤ later.calls.length
  views : later.views = state.views ++ more
  lease : ∀ view ∈ more, ∀ lease, view.lease = some lease → lease < later.leases.length
  ledger : ∀ view ∈ more, ∀ call, view.providerLedger = some call →
    call < later.calls.length ∧ view.lease.isSome
  entered : ∀ view ∈ more, ∀ outer, view.entered = some outer →
    ∃ lease found, view.lease = some lease ∧ state.views[outer]? = some found ∧
      ∀ parent, found.lease = some parent →
        Closed later.leases lease ∨ Listens later.leases parent lease

theorem Grows.view {views : List View} (hgrows : Grows state later views) {context : ℕ}
    {view : View} (hview : state.views[context]? = some view) :
    later.views[context]? = some view := by
  rw [hgrows.views, List.getElem?_append_left (List.getElem?_eq_some_iff.mp hview).1]
  exact hview

theorem Sound.grows (hsound : Sound state) {views : List View}
    (hgrows : Grows state later views) : Sound later where
  told := hgrows.told
  nests := hgrows.nests
  lease view hmem lease hview := by
    rw [hgrows.views, List.mem_append] at hmem
    cases hmem with
    | inl hmem => exact (hsound.lease view hmem lease hview).trans_le hgrows.leases.length
    | inr hmem => exact hgrows.lease view hmem lease hview
  ledger view hmem call hview := by
    rw [hgrows.views, List.mem_append] at hmem
    cases hmem with
    | inl hmem =>
        have hbefore := hsound.ledger view hmem call hview
        exact ⟨hbefore.1.trans_le hgrows.calls, hbefore.2⟩
    | inr hmem => exact hgrows.ledger view hmem call hview
  entered view hmem outer hview := by
    rw [hgrows.views, List.mem_append] at hmem
    cases hmem with
    | inl hmem =>
        obtain ⟨lease, found, hlease, hfound, hlistens⟩ := hsound.entered view hmem outer hview
        refine ⟨lease, found, hlease, hgrows.view hfound, fun parent hparent => ?_⟩
        exact (hlistens parent hparent).imp (hgrows.leases.closed lease)
          (hgrows.leases.listens parent lease)
    | inr hmem =>
        obtain ⟨lease, found, hlease, hfound, hlistens⟩ := hgrows.entered view hmem outer hview
        exact ⟨lease, found, hlease, hgrows.view hfound, hlistens⟩

theorem closeCalls_nested {call : Option ℕ} {calls : List ProviderCall}
    (hcalls : state.closeCalls call = some calls) :
    calls.map ProviderCall.nested = state.calls.map ProviderCall.nested := by
  cases call with
  | none =>
      obtain rfl := Option.some.inj hcalls
      rfl
  | some call => exact closing_spread hcalls

/-- The end of the request closes every lease. -/
theorem ended_revoked (htold : Told leases) :
    Revoked leases (leases.map fun lease => { lease with closed := true }) := by
  have hclosed : ∀ lease, lease < leases.length →
      Closed (leases.map fun lease => { lease with closed := true }) lease := by
    intro lease hlt
    refine ⟨{ leases[lease] with closed := true }, ?_, rfl⟩
    rw [List.getElem?_map, List.getElem?_eq_getElem hlt]
    rfl
  have hlisteners : (leases.map fun lease => { lease with closed := true }).map
      CallLease.listeners = leases.map CallLease.listeners := by
    rw [List.map_map]
    rfl
  refine ⟨hlisteners, fun lease hlease => hclosed lease (closed_lt hlease), ?_⟩
  intro lease _
  exact Or.inr fun target htarget =>
    hclosed target (htold.valid lease target ((listens_congr hlisteners).mp htarget))

theorem step_grows (hsound : Sound state)
    (hmove : state.step event = some (later, emitted)) : ∃ views, Grows state later views := by
  cases step_cases hmove with
  | operation leased logical classification =>
      cases leased with
      | false =>
          refine ⟨_, Extends.refl _, hsound.told, hsound.nests, le_rfl, rfl, ?_, ?_, ?_⟩
          all_goals
            intro view hmem
            obtain rfl := List.mem_singleton.mp hmem
            intro _ hnone
            cases hnone
      | true =>
          obtain ⟨hextends, htold, hlt, -⟩ := openCall_told none hsound.told (by simp)
          refine ⟨_, hextends, htold, hsound.nests, le_rfl, rfl, ?_, ?_, ?_⟩
          all_goals
            intro view hmem
            obtain rfl := List.mem_singleton.mp hmem
            intro found hfound
          · obtain rfl := Option.some.inj hfound
            exact hlt
          · cases hfound
          · cases hfound
  | entered context view classification served hview =>
      have hmem := List.mem_of_getElem? hview
      obtain ⟨hextends, htold, hlt, hlistens⟩ :=
        openCall_told view.lease hsound.told (hsound.lease view hmem)
      have hcalls : (state.providerCallContext context view classification served).calls.length =
          state.calls.length + 1 := by
        cases hledger : view.providerLedger <;> simp [State.providerCallContext, hledger]
      refine ⟨_, hextends, htold, nests_append hsound.nests rfl, ?_, rfl, ?_, ?_, ?_⟩
      · exact hcalls ▸ Nat.le_add_right _ _
      all_goals
        intro added hadded
        obtain rfl := List.mem_singleton.mp hadded
        intro found hfound
        obtain rfl := Option.some.inj hfound
      · exact hlt
      · exact ⟨hcalls ▸ Nat.lt_add_one _, rfl⟩
      · exact ⟨_, view, rfl, hview, hlistens⟩
  | opened context view auxiliary provider sent hview =>
      have hcalls : (state.providerRequest context view auxiliary provider sent).calls.map
          ProviderCall.nested = state.calls.map ProviderCall.nested := by
        cases hledger : view.providerLedger with
        | none => simp [State.providerRequest, hledger]
        | some call =>
            refine List.ext_getElem? fun index => ?_
            simp only [State.providerRequest, hledger, Option.elim_some, List.getElem?_map,
              List.getElem?_modify]
            cases state.calls[index]? with
            | none => rfl
            | some found => by_cases hindex : call = index <;> simp [hindex]
      exact ⟨[], Extends.refl _, hsound.told, nests_congr hcalls hsound.nests,
        (length_of_nested hcalls).ge, (List.append_nil _).symm, by simp, by simp, by simp⟩
  | dispatched context request view opened hdispatches =>
      obtain ⟨_, _, rfl, -⟩ := hdispatches.moved
      exact ⟨[], Extends.refl _, hsound.told, hsound.nests, le_rfl,
        (List.append_nil _).symm, by simp, by simp, by simp⟩
  | answered | refused =>
      exact ⟨[], Extends.refl _, hsound.told, hsound.nests, le_rfl,
        (List.append_nil _).symm, by simp, by simp, by simp⟩
  | closed context view calls leases hview hcalls hleases =>
      have hrevoked := (revokes_revoked hleases).1
      have hnested := closeCalls_nested hcalls
      exact ⟨[], hrevoked.extends, hrevoked.told hsound.told, nests_congr hnested hsound.nests,
        (length_of_nested hnested).ge, (List.append_nil _).symm, by simp, by simp, by simp⟩
  | aborted context view leases hview hleases =>
      have hrevoked := (revokes_revoked hleases).1
      exact ⟨[], hrevoked.extends, hrevoked.told hsound.told, hsound.nests, le_rfl,
        (List.append_nil _).symm, by simp, by simp, by simp⟩
  | ended =>
      have hrevoked := ended_revoked hsound.told
      exact ⟨[], hrevoked.extends, hrevoked.told hsound.told, hsound.nests, le_rfl,
        (List.append_nil _).symm, by simp, by simp, by simp⟩

theorem reachable_sound (hreach : ledgers.Reachable state) : Sound state := by
  refine hreach.invariant (motive := Sound) ?_ ?_
  · rintro _ rfl
    constructor
    case told => exact ⟨by simp [Listens, State.revoking], by simp [Listens, State.revoking]⟩
    case nests => simp [Nests, State.closing]
    all_goals
      intro view hmem
      cases hmem
  · intro state event later emitted hsound hmove
    obtain ⟨views, hgrows⟩ := step_grows hsound hmove
    exact hsound.grows hgrows

/-- A closed context stays closed. -/
theorem leads_closed (hreach : ledgers.Reachable state) (hleads : ledgers.Leads state later)
    {context lease : ℕ} {view : View} (hview : state.views[context]? = some view)
    (hclosed : Closed state.leases lease) :
    later.views[context]? = some view ∧ Closed later.leases lease := by
  induction hleads with
  | refl => exact ⟨hview, hclosed⟩
  | tail hbefore hmove ih =>
      obtain ⟨event, emitted, hmove⟩ := hmove
      obtain ⟨views, hgrows⟩ := step_grows (reachable_sound (hreach.leads hbefore)) hmove
      exact ⟨hgrows.view ih.1, hgrows.leases.closed lease ih.2⟩

/-! ## Closing a call -/

/-- Closing a context's call ends. -/
theorem closeProviderCall_isSome (hsound : Sound state) {context : ℕ} {view : View}
    (hview : state.views[context]? = some view) :
    ∃ later, state.step (.closeProviderCall context) = some (later, []) ∧
      ∀ lease, view.lease = some lease → Closed later.leases lease := by
  have hmem := List.mem_of_getElem? hview
  obtain ⟨calls, hcalls⟩ : ∃ calls, state.closeCalls view.providerLedger = some calls := by
    cases hledger : view.providerLedger with
    | none => exact ⟨state.calls, rfl⟩
    | some call => exact closing_spread_isSome hsound.nests (hsound.ledger view hmem call hledger).1
  obtain ⟨later, hrevoke, hclosed⟩ : ∃ later,
      State.revoke { state with calls := calls } view.lease = some later ∧
        ∀ lease, view.lease = some lease → Closed later.leases lease := by
    cases hlease : view.lease with
    | none => exact ⟨_, rfl, by simp⟩
    | some lease =>
        obtain ⟨leases, hspread⟩ :=
          revoking_spread_isSome hsound.told (hsound.lease view hmem lease hlease)
        refine ⟨{ state with calls := calls, leases := leases }, ?_, ?_⟩
        · simp only [State.revoke, hspread]
          rfl
        · intro _ hsame
          exact Option.some.inj hsame ▸ (revoking_spread hspread).2
  refine ⟨later, ?_, hclosed⟩
  simp only [State.step, hview, State.closeProviderCall, hcalls, Option.bind_eq_bind,
    Option.bind_some, hrevoke, Option.pure_def]

/-- A resource request is not dispatched where the lease of its context is closed. -/
theorem Dispatches.open {context request : ℕ} {view own : View} {opened : Opened}
    (hdispatches : Dispatches state later context request view opened)
    (hresource : opened.request.auxiliary = false)
    (hown : state.views[opened.view]? = some own) {lease : ℕ} (hlease : own.lease = some lease) :
    ¬ Closed state.leases lease := by
  intro hclosed
  have hrevoked : state.leaseClosed own.lease = true := hlease ▸ leaseClosed_of_closed hclosed
  have hsent := hdispatches.sent
  rw [State.sender, hown, Option.any_some, hrevoked, Bool.not_true, Bool.false_and, Bool.or_false,
    decide_eq_true_eq] at hsent
  have hasserted := hdispatches.asserted
  obtain rfl : view = own := by
    have hthrough := hdispatches.through
    rw [hsent, hown] at hthrough
    exact (Option.some.inj hthrough).symm
  simp only [State.assertProviderCallOpen, State.viewClosed, hrevoked, hresource, Bool.or_true,
    Bool.not_true, Bool.and_false, Bool.or_false, Bool.false_eq_true, if_false] at hasserted
  split_ifs at hasserted

/-- Beneath a closed call no resource request is dispatched any more. -/
theorem step_silent (hreach : ledgers.Reachable state) {context lease : ℕ} {view : View}
    (hview : state.views[context]? = some view) (hlease : view.lease = some lease)
    (hclosed : Closed state.leases lease) {request : ℕ} {opened : Opened}
    (hfound : state.requests[request]? = some opened)
    (hresource : opened.request.auxiliary = false)
    (hbeneath : Beneath state context opened.view)
    (hmove : state.step event = some (later, emitted)) : .dispatched request ∉ emitted := by
  intro hmem
  cases step_cases hmove with
  | dispatched through other sender sent hdispatches =>
      obtain rfl := Report.dispatched.inj (List.mem_singleton.mp hmem)
      obtain rfl := Option.some.inj (hdispatches.found.symm.trans hfound)
      obtain ⟨own, inner, hown, hinner, hrevoked⟩ :=
        (reachable_sound hreach).beneath hview hlease hclosed hbeneath
      exact hdispatches.open hresource hown hinner hrevoked
  | _ => simp at hmem

/-- Every physical send is accounted for, and closing a call ends it. -/
theorem ledgers_account (hrun : ledgers.Run state outputs) :
    (∀ request, outputs.count (.dispatched request) ≤ 1 ∧
      outputs.count (.answered request) ≤ 1) ∧
    (∀ (request : ℕ) (opened : Opened), state.requests[request]? = some opened →
      (opened.request.dispatched = true ↔ .dispatched request ∈ outputs) ∧
      (opened.request.status.isSome ↔ .answered request ∈ outputs) ∧
      ∀ later, ledgers.Leads state later →
        ∃ opened', later.requests[request]? = some opened' ∧ Keeps opened opened') ∧
    (∀ (request : ℕ) (opened : Opened), state.requests[request]? = some opened →
      opened.request.dispatched = true → opened.request.auxiliary = false →
      ∀ (view : View) (logical : ℕ), state.views[opened.view]? = some view →
        view.logical = some logical →
        ∃ call, state.logicals[logical]? = some call ∧ call.sent.count request = 1) ∧
    ∀ (context : ℕ) (view : View), state.views[context]? = some view →
      ∃ later, state.step (.closeProviderCall context) = some (later, []) ∧
        (view.providerLedger.isSome → ∀ final, ledgers.Leads later final →
          ∀ (request : ℕ) (opened : Opened), final.requests[request]? = some opened →
            opened.request.auxiliary = false → Beneath final context opened.view →
            ∀ event last emitted, final.step event = some (last, emitted) →
              .dispatched request ∉ emitted) := by
  have haccounted := run_accounted hrun
  have hreach : ledgers.Reachable state := ⟨outputs, hrun⟩
  have hsound := reachable_sound hreach
  refine ⟨?_, ?_, ?_, ?_⟩
  · intro request
    rw [haccounted.dispatched request, haccounted.answered request]
    exact ⟨Bool.toNat_le _, Bool.toNat_le _⟩
  · intro request opened hfound
    have hdispatched := haccounted.dispatched request
    have hanswered := haccounted.answered request
    rw [State.dispatched, hfound, Option.any_some] at hdispatched
    rw [State.answered, hfound, Option.any_some] at hanswered
    refine ⟨?_, ?_, fun later hleads => leads_keeps hleads hfound⟩
    · rw [← List.count_pos_iff, hdispatched]
      cases opened.request.dispatched <;> simp
    · rw [← List.count_pos_iff, hanswered]
      cases opened.request.status.isSome <;> simp
  · intro request opened hfound hdispatched hresource view logical hview hlogical
    have hcount := haccounted.sent logical request
    have howes : state.owes logical request = true := by
      rw [State.owes, hfound, Option.any_some, hdispatched, hresource, hview, Option.any_some,
        hlogical]
      simp
    rw [howes] at hcount
    have hlt := haccounted.logicals view (List.mem_of_getElem? hview) logical hlogical
    refine ⟨_, List.getElem?_eq_getElem hlt, ?_⟩
    rwa [State.sentCount, List.getElem?_eq_getElem hlt, Option.elim_some] at hcount
  · intro context view hview
    obtain ⟨later, hmove, hclosed⟩ := closeProviderCall_isSome hsound hview
    refine ⟨later, hmove, ?_⟩
    intro hledger final hleads request opened hfound hresource hbeneath event last emitted hnext
    obtain ⟨call, hcall⟩ := Option.isSome_iff_exists.mp hledger
    obtain ⟨lease, hlease⟩ := Option.isSome_iff_exists.mp
      (hsound.ledger view (List.mem_of_getElem? hview) call hcall).2
    obtain ⟨views, hgrows⟩ := step_grows hsound hmove
    have hlater := hreach.next (.closeProviderCall context) hmove
    obtain ⟨hview', hclosed'⟩ :=
      leads_closed hlater hleads (hgrows.view hview) (hclosed lease hlease)
    exact step_silent (hlater.leads hleads) hview' hlease hclosed' hfound hresource hbeneath hnext

/-- A call sends once and closes; a boundary entered beneath it afterwards is
refused. -/
theorem ledgers_account_closed :
    let provider := JsString.ofAscii "crm"
    let send (context request : ℕ) := Event.dispatchProviderRequest context request [] none
    ∃ state outputs, ledgers.execute {} [.operation true (some (0, 0)) none,
        .providerCallContext 0 (some .write) none, .providerRequest 1 false provider {},
        send 1 0, .recordProviderResponse 0 200, .closeProviderCall 1,
        .providerCallContext 1 none none, .providerRequest 2 false provider {},
        send 2 1] = some (state, outputs) ∧
      outputs = [.dispatched 0, .answered 0, .refused (.callEnded provider)] ∧
      outputs.count (.dispatched 0) ≤ 1 := by
  intro provider send
  obtain ⟨state, outputs, hexecute, hreports⟩ :
      ∃ state outputs, ledgers.execute {} [.operation true (some (0, 0)) none,
        .providerCallContext 0 (some .write) none, .providerRequest 1 false provider {},
        send 1 0, .recordProviderResponse 0 200, .closeProviderCall 1,
        .providerCallContext 1 none none, .providerRequest 2 false provider {},
        send 2 1] = some (state, outputs) ∧
      outputs = [.dispatched 0, .answered 0, .refused (.callEnded provider)] :=
    ⟨_, _, rfl, rfl⟩
  have hstart : ledgers.Run {} [] := .start rfl
  have hrun := hstart.execute _ hexecute
  exact ⟨state, outputs, hexecute, hreports, ((ledgers_account hrun).1 0).1⟩

end Connecta.ProviderCalls
