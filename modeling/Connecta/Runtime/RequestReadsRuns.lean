import Connecta.Runtime.RequestReads

/-!
# A memoized answer is current

The invariant compares every memoized value, and every storage read that may
still be recorded, with the instants at which observed writes settled and fresh
reads took their values.  A read may be recorded while it is the last of its key
that was started and no write was noted since; where a write was noted, the key
has no memoized value until that read settles.
-/

namespace Connecta.RequestReads

open Connecta.Runtime
open Connecta.Transition

variable {state : State} {address : Address}

/-! ## One key of the memo -/

def State.version (state : State) (address : Address) : ℕ :=
  ((state.memo.stores address.store).map fun entries =>
    entries.versions address.key).getD 0

theorem address_ne {left right : Address} (hne : left ≠ right)
    (hstore : left.store = right.store) : left.key ≠ right.key := by
  intro hkey
  cases left
  cases right
  simp only at hstore hkey
  exact hne (by rw [hstore, hkey])

section SetEntries

variable (state : State) (store : StoreIdentity) (entries : StoreEntries)
  (address : Address)

theorem stores_setEntries :
    (state.setEntries store entries).memo.stores address.store =
      if address.store = store then some entries
      else state.memo.stores address.store := by
  simp only [State.setEntries, Function.update_apply]

theorem value_setEntries :
    (state.setEntries store entries).value address =
      if address.store = store then entries.values address.key
      else state.value address := by
  simp only [State.value, stores_setEntries]
  split <;> rfl

theorem version_setEntries :
    (state.setEntries store entries).version address =
      if address.store = store then entries.versions address.key
      else state.version address := by
  simp only [State.version, stores_setEntries]
  split <;> rfl

theorem started_setEntries :
    (state.setEntries store entries).started address =
      if address.store = store then entries.started address.key
      else state.started address := by
  simp only [State.started, stores_setEntries]
  split <;> rfl

end SetEntries

section Entries

variable {entries : StoreEntries}
  (hentries : state.memo.stores address.store = some entries)

include hentries

theorem value_of_entries : state.value address = entries.values address.key := by
  simp only [State.value, hentries, Option.bind_some]

theorem version_of_entries :
    state.version address = entries.versions address.key := by
  simp only [State.version, hentries, Option.map_some, Option.getD_some]

theorem started_of_entries :
    state.started address = entries.started address.key := by
  simp only [State.started, hentries, Option.map_some, Option.getD_some]

end Entries

/-! ## A write notice -/

theorem changed_value (state : State) (address other : Address) :
    (state.changed address).value other =
      if other = address then none else state.value other := by
  simp only [State.changed]
  split
  case h_1 hnone =>
    split
    case isTrue hsame =>
      rw [hsame, State.value, hnone]
      rfl
    case isFalse => rfl
  case h_2 entries hentries =>
    simp only [value_setEntries]
    by_cases hsame : other = address
    · rw [if_pos hsame, if_pos (by rw [hsame]), hsame, Function.update_self]
    · rw [if_neg hsame]
      split
      case isTrue hstore =>
        rw [Function.update_of_ne (address_ne hsame hstore)]
        exact (value_of_entries (hstore ▸ hentries)).symm
      case isFalse => rfl

theorem changed_version (state : State) (address other : Address) :
    (state.changed address).version other =
      if other = address ∧ state.memo.stores address.store ≠ none then
        state.version other + 1
      else state.version other := by
  simp only [State.changed]
  split
  case h_1 hnone => rw [if_neg (fun hboth => hboth.2 hnone)]
  case h_2 entries hentries =>
    simp only [version_setEntries]
    by_cases hsame : other = address
    · rw [if_pos (by rw [hsame]), if_pos ⟨hsame, by rw [hentries]; simp⟩, hsame,
        Function.update_self, version_of_entries hentries]
    · simp only [hsame, false_and, if_false]
      split
      case isTrue hstore =>
        rw [Function.update_of_ne (address_ne hsame hstore)]
        exact (version_of_entries (hstore ▸ hentries)).symm
      case isFalse => rfl

theorem changed_started (state : State) (address other : Address) :
    (state.changed address).started other = state.started other := by
  simp only [State.changed]
  split
  case h_1 => rfl
  case h_2 entries hentries =>
    simp only [started_setEntries]
    split
    case isTrue hstore =>
      exact (started_of_entries (hstore ▸ hentries)).symm
    case isFalse => rfl

/-! ## A read is started -/

theorem entriesFor_value (state : State) (address : Address) :
    (state.entriesFor address.store).2.values address.key =
      state.value address := by
  simp only [State.entriesFor]
  split
  case h_1 entries hentries => exact (value_of_entries hentries).symm
  case h_2 hnone =>
    rw [State.value, hnone]
    rfl

theorem entriesFor_version (state : State) (address : Address) :
    (state.entriesFor address.store).2.versions address.key =
      state.version address := by
  simp only [State.entriesFor]
  split
  case h_1 entries hentries => exact (version_of_entries hentries).symm
  case h_2 hnone =>
    rw [State.version, hnone]
    rfl

theorem entriesFor_started (state : State) (address : Address) :
    (state.entriesFor address.store).2.started address.key =
      state.started address := by
  simp only [State.entriesFor]
  split
  case h_1 entries hentries => exact (started_of_entries hentries).symm
  case h_2 hnone =>
    rw [State.started, hnone]
    rfl

/-- Entries made for a store say of each key what their absence said. -/
theorem entriesFor_stores (state : State) (store : StoreIdentity) :
    (state.entriesFor store).1.memo.stores =
      Function.update state.memo.stores store
        (some (state.entriesFor store).2) := by
  simp only [State.entriesFor]
  split
  case h_1 entries hentries => rw [← hentries, Function.update_eq_self]
  case h_2 => rfl

/-- The state `lookup` leaves when it starts a read. -/
def State.startRead (state : State) (address : Address) : State :=
  let (state, entries) := state.entriesFor address.store
  let read := entries.started address.key + 1
  let started := state.setEntries address.store
    { entries with
      started := Function.update entries.started address.key read }
  { started with
    reading := Function.update state.reading address
      (Function.update (state.reading address) read
        (some ⟨entries.versions address.key, none⟩)) }

theorem startRead_stores (state : State) (address : Address) :
    (state.startRead address).memo.stores =
      Function.update state.memo.stores address.store
        (some { (state.entriesFor address.store).2 with
          started := Function.update
            (state.entriesFor address.store).2.started address.key
            (state.started address + 1) }) := by
  simp only [State.startRead, State.setEntries, entriesFor_stores,
    Function.update_idem, entriesFor_started]

theorem startRead_value (state : State) (address other : Address) :
    (state.startRead address).value other = state.value other := by
  simp only [State.value, startRead_stores, Function.update_apply]
  split
  case isTrue hstore =>
    rw [← hstore]
    exact entriesFor_value state other
  case isFalse => rfl

theorem startRead_version (state : State) (address other : Address) :
    (state.startRead address).version other = state.version other := by
  simp only [State.version, startRead_stores, Function.update_apply]
  split
  case isTrue hstore =>
    rw [← hstore]
    exact entriesFor_version state other
  case isFalse => rfl

theorem startRead_started (state : State) (address other : Address) :
    (state.startRead address).started other =
      if other = address then state.started address + 1
      else state.started other := by
  have hstored := congrFun (startRead_stores state address) other.store
  rw [Function.update_apply] at hstored
  by_cases hsame : other = address
  · subst hsame
    rw [if_pos rfl] at hstored
    rw [if_pos rfl, started_of_entries hstored]
    exact Function.update_self ..
  · rw [if_neg hsame]
    by_cases hstore : other.store = address.store
    · rw [if_pos hstore] at hstored
      rw [started_of_entries hstored]
      calc
        Function.update (state.entriesFor address.store).2.started address.key
            (state.started address + 1) other.key =
            (state.entriesFor address.store).2.started other.key :=
          Function.update_of_ne (address_ne hsame hstore) ..
        _ = (state.entriesFor other.store).2.started other.key := by rw [hstore]
        _ = state.started other := entriesFor_started state other
    · rw [if_neg hstore] at hstored
      simp only [State.started, hstored]

theorem startRead_reading (state : State) (address : Address) :
    (state.startRead address).reading =
      Function.update state.reading address
        (Function.update (state.reading address) (state.started address + 1)
          (some ⟨state.version address, none⟩)) := by
  have hreading : (state.entriesFor address.store).1.reading =
      state.reading := by
    simp only [State.entriesFor]
    split <;> rfl
  simp only [State.startRead, hreading, entriesFor_started, entriesFor_version]

/-- A lookup leaves the memo as it is, or starts a read of the key's physical
address. -/
theorem lookup_cases (state : State) (storage : KVStorage) (key : JsString)
    (fresh : Bool) :
    state.lookup storage key fresh = (state, none) ∨
      (∃ address value, physicalStorageAddress storage key = some address ∧
        state.value address = some value ∧
        state.lookup storage key fresh = (state, some (.hit value))) ∨
      ∃ address, physicalStorageAddress storage key = some address ∧
        state.memo.closed = false ∧
        (fresh = false → state.value address = none) ∧
        state.lookup storage key fresh = (state.startRead address,
          some (.miss address (state.started address + 1))) := by
  simp only [State.lookup]
  split
  case isTrue => exact Or.inl rfl
  case isFalse hopen =>
    have hclosed : state.memo.closed = false := by
      rw [Bool.not_eq_true, Bool.or_eq_false_iff] at hopen
      exact hopen.1
    split
    case h_1 => exact Or.inl rfl
    case h_2 address haddress =>
      apply Or.inr
      split
      case h_1 value hvalue =>
        apply Or.inl
        rw [entriesFor_value] at hvalue
        refine ⟨address, value, haddress, hvalue, ?_⟩
        have hsame : (state.entriesFor address.store).1 = state := by
          cases hentries : state.memo.stores address.store with
          | none =>
              rw [State.value, hentries] at hvalue
              cases hvalue
          | some entries => simp only [State.entriesFor, hentries]
        rw [hsame]
      case h_2 hmiss =>
        apply Or.inr
        refine ⟨address, haddress, hclosed, ?_, ?_⟩
        · intro hfresh
          cases hvalue : state.value address with
          | none => rfl
          | some value =>
              exact absurd ((entriesFor_value state address).trans hvalue)
                (hmiss value hfresh)
        · rw [← entriesFor_started]
          rfl

theorem reaches_of_physicalStorageAddress {storage : KVStorage} {key : JsString}
    (haddress : physicalStorageAddress storage key = some address) :
    storage.reaches key = some address := by
  induction storage generalizing key with
  | custom methods => cases haddress
  | root methods own store =>
      simp only [physicalStorageAddress] at haddress
      split at haddress
      case isTrue => exact haddress
      case isFalse => cases haddress
  | view methods own storage keyPrefix ih =>
      simp only [physicalStorageAddress] at haddress
      split at haddress
      case isTrue => exact ih haddress
      case isFalse => cases haddress

/-! ## The invariant -/

/-- What a storage read that is not settled says of its key. -/
structure Pending (state : State) (address : Address) (read : ℕ)
    (reading : Reading) : Prop where
  before : reading.before ≤ state.version address
  entered : state.memo.stores address.store ≠ none
  unsettled : ∀ instant, reading.taken = some instant →
    state.version address = reading.before → state.settledAt address ≤ instant
  latest : ∀ instant, reading.taken = some instant →
    state.started address = read → state.freshAt address ≤ instant
  /-- A write was noted since: nothing is memoized before it settles. -/
  dropped : state.started address = read →
    state.version address ≠ reading.before → state.value address = none

structure Sound (state : State) : Prop where
  settled : ∀ address, state.settledAt address ≤ state.clock
  fresh : ∀ address, state.freshAt address ≤ state.clock
  closed : state.memo.closed = true → ∀ store, state.memo.stores store = none
  registered : ∀ store, state.memo.stores store ≠ none →
    state.registered store = true
  taken : ∀ address read reading instant,
    state.reading address read = some reading →
      reading.taken = some instant → instant ≤ state.clock
  pending : state.memo.closed = false → ∀ address read reading,
    state.reading address read = some reading →
      Pending state address read reading
  memoized : ∀ address value, state.value address = some value →
    ∃ instant, state.settledAt address ≤ instant ∧
      state.freshAt address ≤ instant ∧ instant ≤ state.clock ∧
      state.held instant address = value

theorem Sound.current (hsound : Sound state) : state.Current := by
  intro storage key value hanswers
  simp only [State.Answers] at hanswers
  obtain hnone | ⟨address, known, haddress, hvalue, hhit⟩ |
    ⟨address, _, _, _, hmiss⟩ := lookup_cases state storage key false
  · rw [hnone] at hanswers
    cases hanswers
  · rw [hhit] at hanswers
    obtain rfl := Found.hit.inj (Option.some.inj hanswers)
    obtain ⟨instant, hinstant⟩ := hsound.memoized address known hvalue
    exact ⟨address, instant, reaches_of_physicalStorageAddress haddress, hinstant⟩
  · rw [hmiss] at hanswers
    cases hanswers

theorem startRead_frame (state : State) (address : Address) :
    (state.startRead address).memo.closed = state.memo.closed ∧
      (state.startRead address).held = state.held ∧
      (state.startRead address).clock = state.clock ∧
      (state.startRead address).settledAt = state.settledAt ∧
      (state.startRead address).freshAt = state.freshAt ∧
      (state.startRead address).roots = state.roots := by
  simp only [State.startRead, State.entriesFor]
  split <;> exact ⟨rfl, rfl, rfl, rfl, rfl, rfl⟩

theorem startRead_registered (state : State) (address : Address)
    (store : StoreIdentity) (hkept : state.memo.stores store ≠ none →
      state.registered store = true)
    (hstore : (state.startRead address).memo.stores store ≠ none) :
    (state.startRead address).registered store = true := by
  rw [startRead_stores] at hstore
  simp only [State.startRead, State.entriesFor]
  split
  case h_1 entries hentries =>
    by_cases hsame : store = address.store
    · exact hkept (by rw [hsame, hentries]; simp)
    · rw [Function.update_of_ne hsame] at hstore
      exact hkept hstore
  case h_2 =>
    simp only [State.setEntries, Function.update_apply]
    split
    case isTrue => rfl
    case isFalse hsame =>
      rw [Function.update_of_ne hsame] at hstore
      exact hkept hstore

/-- A read of the key is started. -/
theorem Sound.startRead (hsound : Sound state) (address : Address)
    (hopen : state.memo.closed = false) : Sound (state.startRead address) := by
  obtain ⟨hclosed, hheld, hclock, hsettled, hfresh, _⟩ :=
    startRead_frame state address
  constructor
  · rw [hsettled, hclock]
    exact hsound.settled
  · rw [hfresh, hclock]
    exact hsound.fresh
  · intro hshut
    rw [hclosed, hopen] at hshut
    cases hshut
  · exact fun store =>
      startRead_registered state address store (hsound.registered store)
  · intro other read reading instant hreading htaken
    rw [hclock]
    rw [startRead_reading, Function.update_apply] at hreading
    split at hreading
    case isTrue =>
      rw [Function.update_apply] at hreading
      split at hreading
      case isTrue =>
        obtain rfl := Option.some.inj hreading
        cases htaken
      case isFalse => exact hsound.taken _ _ _ _ hreading htaken
    case isFalse => exact hsound.taken _ _ _ _ hreading htaken
  · intro _ other read reading hreading
    have hentered : state.memo.stores other.store ≠ none →
        (state.startRead address).memo.stores other.store ≠ none := by
      intro hentered
      rw [startRead_stores, Function.update_apply]
      split
      case isTrue => simp
      case isFalse => exact hentered
    rw [startRead_reading, Function.update_apply] at hreading
    by_cases hsame : other = address
    · subst hsame
      rw [if_pos rfl, Function.update_apply] at hreading
      split at hreading
      case isTrue =>
        obtain rfl := Option.some.inj hreading
        constructor
        · rw [startRead_version]
        · rw [startRead_stores, Function.update_self]
          simp
        · exact fun _ htaken => by cases htaken
        · exact fun _ htaken => by cases htaken
        · exact fun _ hversion => absurd (startRead_version ..) hversion
      case isFalse hread =>
        have hpending := hsound.pending hopen _ _ _ hreading
        constructor
        · rw [startRead_version]
          exact hpending.before
        · exact hentered hpending.entered
        · rw [startRead_version, hsettled]
          exact hpending.unsettled
        · intro instant _ hlatest
          rw [startRead_started, if_pos rfl] at hlatest
          exact absurd hlatest.symm hread
        · intro hlatest
          rw [startRead_started, if_pos rfl] at hlatest
          exact absurd hlatest.symm hread
    · rw [if_neg hsame] at hreading
      have hpending := hsound.pending hopen _ _ _ hreading
      constructor
      · rw [startRead_version]
        exact hpending.before
      · exact hentered hpending.entered
      · rw [startRead_version, hsettled]
        exact hpending.unsettled
      · rw [startRead_started, if_neg hsame, hfresh]
        exact hpending.latest
      · rw [startRead_started, if_neg hsame, startRead_version, startRead_value]
        exact hpending.dropped
  · intro other value hvalue
    rw [startRead_value] at hvalue
    rw [hsettled, hfresh, hclock, hheld]
    exact hsound.memoized other value hvalue

theorem Sound.lookup (hsound : Sound state) (storage : KVStorage)
    (key : JsString) (fresh : Bool) :
    Sound (state.lookup storage key fresh).1 := by
  obtain hnone | ⟨address, known, _, _, hhit⟩ | ⟨address, _, hopen, _, hmiss⟩ :=
    lookup_cases state storage key fresh
  · rw [hnone]
    exact hsound
  · rw [hhit]
    exact hsound
  · rw [hmiss]
    exact hsound.startRead address hopen

/-! ## Writes are noted and stores change -/

theorem changed_stores (state : State) (address : Address)
    (store : StoreIdentity) :
    (state.changed address).memo.stores store ≠ none ↔
      state.memo.stores store ≠ none := by
  simp only [State.changed]
  split
  case h_1 => rfl
  case h_2 entries hentries =>
    simp only [State.setEntries, Function.update_apply]
    split
    case isTrue hsame => simp [hsame, hentries]
    case isFalse => rfl

/-- Every open memo over the store hears the notice. -/
theorem Sound.note_eq (hsound : Sound state) (address : Address) :
    state.noteStorageWrite address = state.changed address := by
  simp only [State.noteStorageWrite]
  split
  case isTrue => rfl
  case isFalse hregistered =>
    have hnone : state.memo.stores address.store = none := by
      by_contra hsome
      exact hregistered (hsound.registered _ hsome)
    simp only [State.changed, hnone]

theorem changed_frame (state : State) (address : Address) :
    (state.changed address).memo.closed = state.memo.closed ∧
      (state.changed address).held = state.held ∧
      (state.changed address).clock = state.clock ∧
      (state.changed address).settledAt = state.settledAt ∧
      (state.changed address).freshAt = state.freshAt ∧
      (state.changed address).reading = state.reading ∧
      (state.changed address).registered = state.registered := by
  simp only [State.changed]
  split <;> exact ⟨rfl, rfl, rfl, rfl, rfl, rfl, rfl⟩

/-- A write to the key is noted; when the notice follows its settlement, the
instant is kept. -/
theorem Sound.noted (hsound : Sound state) (address : Address)
    {settledAt : Address → ℕ}
    (hsettled : settledAt = state.settledAt ∨
      settledAt = Function.update state.settledAt address state.clock) :
    Sound { state.noteStorageWrite address with settledAt := settledAt } := by
  rw [hsound.note_eq]
  obtain ⟨hclosed, hheld, hclock, _, hfresh, hreading, hregistered⟩ :=
    changed_frame state address
  have hother : ∀ other, other ≠ address →
      settledAt other = state.settledAt other := by
    intro other hne
    cases hsettled with
    | inl hsame => rw [hsame]
    | inr hnow => rw [hnow, Function.update_of_ne hne]
  have hversion : ∀ other, state.version other ≤
      (state.changed address).version other := by
    intro other
    rw [changed_version]
    split
    case isTrue => exact Nat.le_succ _
    case isFalse => exact le_refl _
  constructor
  · intro other
    show settledAt other ≤ (state.changed address).clock
    rw [hclock]
    cases hsettled with
    | inl hsame => rw [hsame]; exact hsound.settled other
    | inr hnow =>
        rw [hnow, Function.update_apply]
        split
        case isTrue => exact le_refl _
        case isFalse => exact hsound.settled other
  · intro other
    show (state.changed address).freshAt other ≤ (state.changed address).clock
    rw [hfresh, hclock]
    exact hsound.fresh other
  · intro hshut store
    have hnone := hsound.closed (hclosed ▸ hshut) store
    by_contra hsome
    exact (changed_stores state address store).mp hsome hnone
  · intro store hstore
    show (state.changed address).registered store = true
    rw [hregistered]
    exact hsound.registered store ((changed_stores state address store).mp hstore)
  · intro other read reading instant hread htaken
    show instant ≤ (state.changed address).clock
    rw [hclock]
    exact hsound.taken other read reading instant (hreading ▸ hread) htaken
  · intro hshut other read reading hread
    have hpending := hsound.pending (hclosed ▸ hshut) other read reading
      (hreading ▸ hread)
    constructor
    · exact hpending.before.trans (hversion other)
    · exact (changed_stores state address _).mpr hpending.entered
    · intro instant htaken hsame
      have hkept : state.version other = reading.before :=
        le_antisymm (hsame ▸ hversion other) hpending.before
      have hne : other ≠ address := by
        intro heq
        have hbumped : (state.changed address).version other =
            state.version other + 1 := by
          rw [changed_version, if_pos ⟨heq, heq ▸ hpending.entered⟩]
        have hsame' : (state.changed address).version other =
            reading.before := hsame
        omega
      show settledAt other ≤ instant
      rw [hother other hne]
      exact hpending.unsettled instant htaken hkept
    · intro instant htaken hlatest
      show (state.changed address).freshAt other ≤ instant
      rw [hfresh]
      exact hpending.latest instant htaken
        ((changed_started state address other).symm.trans hlatest)
    · intro hlatest hnoted
      have hlatest := (changed_started state address other).symm.trans hlatest
      show (state.changed address).value other = none
      rw [changed_value]
      split
      case isTrue => rfl
      case isFalse hne =>
        apply hpending.dropped hlatest
        have hnoted : (state.changed address).version other ≠
            reading.before := hnoted
        rwa [changed_version, if_neg (fun hboth => hne hboth.1)] at hnoted
  · intro other value hvalue
    have hvalue : (state.changed address).value other = some value := hvalue
    rw [changed_value] at hvalue
    split at hvalue
    case isTrue => cases hvalue
    case isFalse hne =>
      obtain ⟨instant, hinstant⟩ := hsound.memoized other value hvalue
      refine ⟨instant, ?_⟩
      simp only [hother other hne, hfresh, hclock, hheld]
      exact hinstant

/-- A store changes; what was held before stays known. -/
theorem Sound.change (hsound : Sound state) (address : Address)
    (value : Value) : Sound (state.change address value) := by
  constructor
  · exact fun other => (hsound.settled other).trans (Nat.le_succ _)
  · exact fun other => (hsound.fresh other).trans (Nat.le_succ _)
  · exact hsound.closed
  · exact hsound.registered
  · exact fun other read reading instant hreading htaken =>
      (hsound.taken other read reading instant hreading htaken).trans
        (Nat.le_succ _)
  · intro hopen other read reading hreading
    have hpending := hsound.pending hopen other read reading hreading
    exact ⟨hpending.before, hpending.entered, hpending.unsettled,
      hpending.latest, hpending.dropped⟩
  · intro other held hvalue
    obtain ⟨instant, hsettled, hfresh, hclock, hheld⟩ :=
      hsound.memoized other held hvalue
    refine ⟨instant, hsettled, hfresh, hclock.trans (Nat.le_succ _), ?_⟩
    simp only [State.change]
    rw [Function.update_of_ne (by omega)]
    exact hheld

/-! ## Reads take their values and settle -/

/-- A read takes its value now: no observed write has settled and no fresh read
taken its value later. -/
theorem Sound.take (hsound : Sound state) (item : Address × ℕ) :
    Sound (state.take item) := by
  simp only [State.take]
  split
  case h_1 => exact hsound
  case h_2 reading hitem =>
    have hread : ∀ other read later, Function.update state.reading item.1
        (Function.update (state.reading item.1) item.2
          (some { reading with taken := some state.clock })) other read =
            some later →
        state.reading other read = some later ∨
          (∃ before, state.reading other read = some before ∧
            later = { before with taken := some state.clock }) := by
      intro other read later hlater
      rw [Function.update_apply] at hlater
      split at hlater
      case isTrue hother =>
        rw [Function.update_apply] at hlater
        split at hlater
        case isTrue hsame =>
          apply Or.inr
          exact ⟨reading, by rw [hother, hsame, hitem],
            (Option.some.inj hlater).symm⟩
        case isFalse => exact Or.inl (hother ▸ hlater)
      case isFalse => exact Or.inl hlater
    constructor
    · exact hsound.settled
    · exact hsound.fresh
    · exact hsound.closed
    · exact hsound.registered
    · intro other read later instant hlater htaken
      cases hread other read later hlater with
      | inl hold => exact hsound.taken other read later instant hold htaken
      | inr hnow =>
          obtain ⟨before, _, rfl⟩ := hnow
          obtain rfl := Option.some.inj htaken
          exact le_refl _
    · intro hopen other read later hlater
      cases hread other read later hlater with
      | inl hold =>
          have hpending := hsound.pending hopen other read later hold
          exact ⟨hpending.before, hpending.entered, hpending.unsettled,
            hpending.latest, hpending.dropped⟩
      | inr hnow =>
          obtain ⟨before, hold, rfl⟩ := hnow
          have hpending := hsound.pending hopen other read before hold
          constructor
          · exact hpending.before
          · exact hpending.entered
          · intro instant htaken _
            obtain rfl := Option.some.inj htaken
            exact hsound.settled other
          · intro instant htaken _
            obtain rfl := Option.some.inj htaken
            exact hsound.fresh other
          · exact hpending.dropped
    · exact hsound.memoized

/-- A value is recorded for the last read that was started, where no write was
noted since. -/
theorem record_cases (state : State) (address : Address) (read before : ℕ)
    (value : Value) :
    state.record address read before value = state ∨
      state.memo.closed = false ∧ state.started address = read ∧
        state.version address = before ∧
        ∃ entries, state.memo.stores address.store = some entries ∧
          state.record address read before value =
            state.setEntries address.store
              { entries with
                values :=
                  Function.update entries.values address.key (some value) } := by
  simp only [State.record]
  split
  case h_1 => exact Or.inl rfl
  case h_2 entries hentries =>
    split
    case isTrue hrecords =>
      simp only [Bool.and_eq_true, Bool.not_eq_true', beq_iff_eq] at hrecords
      exact Or.inr ⟨hrecords.1.1, (started_of_entries hentries).trans hrecords.1.2,
        (version_of_entries hentries).trans hrecords.2, entries, hentries, rfl⟩
    case isFalse => exact Or.inl rfl

theorem record_value {entries : StoreEntries} {read before : ℕ} (value : Value)
    (hentries : state.memo.stores address.store = some entries)
    (hopen : state.memo.closed = false) (hread : state.started address = read) :
    (state.record address read before value).value address =
      if state.version address = before then some value
      else state.value address := by
  rw [started_of_entries hentries] at hread
  rw [version_of_entries hentries]
  simp only [State.record, hentries, hopen, hread, Bool.not_false,
    beq_self_eq_true, Bool.and_self, Bool.true_and, beq_iff_eq]
  split
  case isTrue => simp only [value_setEntries, if_true, Function.update_self]
  case isFalse => rfl

/-- The memo holds what a key held at an instant that is late enough. -/
theorem Sound.memoize (hsound : Sound state) {instant : ℕ} {entries : StoreEntries}
    (hopen : state.memo.closed = false)
    (hentries : state.memo.stores address.store = some entries)
    (hsettled : state.settledAt address ≤ instant)
    (hfresh : state.freshAt address ≤ instant) (hclock : instant ≤ state.clock)
    (hlatest : ∀ read reading, state.reading address read = some reading →
      state.started address = read → state.version address = reading.before) :
    Sound (state.setEntries address.store
      { entries with
        values := Function.update entries.values address.key
          (some (state.held instant address)) }) := by
  set later := state.setEntries address.store
    { entries with
      values := Function.update entries.values address.key
        (some (state.held instant address)) } with hlater
  have hvalue : ∀ other, later.value other =
      if other = address then some (state.held instant address)
      else state.value other := by
    intro other
    simp only [hlater, value_setEntries]
    by_cases hsame : other = address
    · rw [if_pos hsame, if_pos (by rw [hsame]), hsame, Function.update_self]
    · rw [if_neg hsame]
      split
      case isTrue hstore =>
        rw [Function.update_of_ne (address_ne hsame hstore)]
        exact (value_of_entries (hstore ▸ hentries)).symm
      case isFalse => rfl
  have hversion : ∀ other, later.version other = state.version other := by
    intro other
    simp only [hlater, version_setEntries]
    split
    case isTrue hstore =>
      exact (version_of_entries (hstore ▸ hentries)).symm
    case isFalse => rfl
  have hstarted : ∀ other, later.started other = state.started other := by
    intro other
    simp only [hlater, started_setEntries]
    split
    case isTrue hstore =>
      exact (started_of_entries (hstore ▸ hentries)).symm
    case isFalse => rfl
  have hstores : ∀ store, later.memo.stores store ≠ none ↔
      state.memo.stores store ≠ none := by
    intro store
    simp only [hlater, State.setEntries, Function.update_apply]
    split
    case isTrue hsame => simp [hsame, hentries]
    case isFalse => rfl
  constructor
  · exact hsound.settled
  · exact hsound.fresh
  · intro hshut
    have hshut : state.memo.closed = true := hshut
    rw [hopen] at hshut
    cases hshut
  · exact fun store hstore => hsound.registered store ((hstores store).mp hstore)
  · exact hsound.taken
  · intro _ other read reading hreading
    have hpending := hsound.pending hopen other read reading hreading
    constructor
    · rw [hversion]
      exact hpending.before
    · exact (hstores _).mpr hpending.entered
    · rw [hversion]
      exact hpending.unsettled
    · rw [hstarted]
      exact hpending.latest
    · rw [hstarted, hversion, hvalue]
      intro hread hnoted
      split
      case isTrue hsame =>
        subst hsame
        exact absurd (hlatest read reading hreading hread) hnoted
      case isFalse => exact hpending.dropped hread hnoted
  · intro other value hmemoized
    rw [hvalue] at hmemoized
    split at hmemoized
    case isTrue hsame =>
      subst hsame
      exact ⟨instant, hsettled, hfresh, hclock, Option.some.inj hmemoized⟩
    case isFalse => exact hsound.memoized other value hmemoized

theorem record_frame (state : State) (address : Address) (read before : ℕ)
    (value : Value) :
    (state.record address read before value).memo.closed = state.memo.closed ∧
      (state.record address read before value).freshAt = state.freshAt ∧
      (state.record address read before value).settledAt = state.settledAt ∧
      (state.record address read before value).held = state.held ∧
      (state.record address read before value).clock = state.clock ∧
      (state.record address read before value).reading = state.reading ∧
      (state.record address read before value).roots = state.roots ∧
      ∀ other, (state.record address read before value).started other =
        state.started other := by
  obtain hkept | ⟨_, _, _, entries, hentries, hrecorded⟩ :=
    record_cases state address read before value
  · rw [hkept]
    exact ⟨rfl, rfl, rfl, rfl, rfl, rfl, rfl, fun _ => rfl⟩
  · rw [hrecorded]
    refine ⟨rfl, rfl, rfl, rfl, rfl, rfl, rfl, fun other => ?_⟩
    simp only [started_setEntries]
    split
    case isTrue hstore =>
      exact (started_of_entries (hstore ▸ hentries)).symm
    case isFalse => rfl

/-- A read that took its value settles as a plain read. -/
theorem Sound.record (hsound : Sound state) {read before instant : ℕ}
    (hreading : state.reading address read = some ⟨before, some instant⟩) :
    Sound (state.record address read before (state.held instant address)) := by
  obtain hkept | ⟨hopen, hread, hversion, entries, hentries, hrecorded⟩ :=
    record_cases state address read before (state.held instant address)
  · rw [hkept]
    exact hsound
  · rw [hrecorded]
    have hpending := hsound.pending hopen address read _ hreading
    apply hsound.memoize hopen hentries
    · exact hpending.unsettled instant rfl hversion
    · exact hpending.latest instant rfl hread
    · exact hsound.taken address read _ instant hreading rfl
    · intro other reading hother hlatest
      rw [← hlatest, hread, hreading] at hother
      obtain rfl := Option.some.inj hother
      exact hversion

/-- The last read that was started settles as a fresh one: it is memoized, or
nothing is. -/
theorem Sound.freshened (hsound : Sound state) {read before instant : ℕ}
    (hreading : state.reading address read = some ⟨before, some instant⟩)
    (hlast : state.memo.closed = false → state.started address = read) :
    Sound { state.record address read before (state.held instant address) with
      freshAt := Function.update
        (state.record address read before (state.held instant address)).freshAt
        address (max ((state.record address read before
          (state.held instant address)).freshAt address) instant) } := by
  have hrecord := hsound.record hreading
  obtain ⟨hclosed, hfresh, hsettled, hheld, hclock, hkept, _, hstarted⟩ :=
    record_frame state address read before (state.held instant address)
  have htaken := hsound.taken address read _ instant hreading rfl
  set recorded := state.record address read before (state.held instant address)
    with hrecorded
  have happlied : ∀ other, Function.update recorded.freshAt address
      (max (recorded.freshAt address) instant) other =
        if other = address then max (state.freshAt address) instant
        else recorded.freshAt other := by
    intro other
    rw [Function.update_apply, hfresh]
  constructor
  · exact hrecord.settled
  · intro other
    simp only [happlied]
    split
    case isTrue =>
      rw [hclock]
      exact max_le (hsound.fresh address) htaken
    case isFalse => exact hrecord.fresh other
  · exact hrecord.closed
  · exact hrecord.registered
  · exact hrecord.taken
  · intro hopen other number reading hother
    have hpending := hrecord.pending hopen other number reading hother
    refine ⟨hpending.before, hpending.entered, hpending.unsettled, ?_,
      hpending.dropped⟩
    intro later hlater hlatest
    simp only [happlied]
    split
    case isTrue hsame =>
      subst hsame
      have hread := hlast (hclosed ▸ hopen)
      have hnumber : number = read :=
        hlatest.symm.trans ((hstarted _).trans hread)
      have hother : state.reading other number = some reading :=
        (congrFun (congrFun hkept other) number).symm.trans hother
      rw [hnumber, hreading] at hother
      obtain rfl := Option.some.inj hother
      obtain rfl := Option.some.inj hlater
      exact max_le ((hsound.pending (hclosed ▸ hopen) other read _
        hreading).latest instant rfl hread) (le_refl _)
    case isFalse => exact hpending.latest later hlater hlatest
  · intro other value hvalue
    by_cases hsame : other = address
    · subst hsame
      have hvalue : recorded.value other = some value := hvalue
      have hopen : state.memo.closed = false := by
        rw [← Bool.not_eq_true, ← hclosed]
        intro hshut
        rw [State.value, hrecord.closed hshut] at hvalue
        cases hvalue
      have hpending := hsound.pending hopen other read _ hreading
      have hread := hlast hopen
      obtain ⟨entries, hentries⟩ :=
        Option.ne_none_iff_exists'.mp hpending.entered
      rw [hrecorded, record_value _ hentries hopen hread] at hvalue
      split at hvalue
      case isTrue hversion =>
        refine ⟨instant, ?_, ?_, ?_, ?_⟩
        · show recorded.settledAt other ≤ instant
          rw [hsettled]
          exact hpending.unsettled instant rfl hversion
        · simp only [happlied, if_true]
          exact max_le (hpending.latest instant rfl hread) (le_refl _)
        · show instant ≤ recorded.clock
          rw [hclock]
          exact htaken
        · show recorded.held instant other = value
          rw [hheld]
          exact Option.some.inj hvalue
      case isFalse hversion =>
        -- A write was noted since it was started, so nothing is memoized.
        rw [hpending.dropped hread hversion] at hvalue
        cases hvalue
    · obtain ⟨found, hinstants⟩ := hrecord.memoized other value hvalue
      refine ⟨found, ?_⟩
      simp only [happlied, if_neg hsame]
      exact hinstants

theorem settleRead_frame (fresh : Bool) (state : State) (item : Address × ℕ) :
    (State.settleRead fresh state item).memo.closed = state.memo.closed ∧
      (State.settleRead fresh state item).clock = state.clock ∧
      ∀ other, (State.settleRead fresh state item).started other =
        state.started other := by
  simp only [State.settleRead]
  split
  case h_1 before instant hreading =>
    have hframe := record_frame state item.1 item.2 before
      (state.held instant item.1)
    obtain ⟨hclosed, _, _, _, hclock, _, _, hstarted⟩ := hframe
    cases fresh with
    | true => exact ⟨hclosed, hclock, hstarted⟩
    | false => exact ⟨hclosed, hclock, hstarted⟩
  case h_2 => exact ⟨rfl, rfl, fun _ => rfl⟩

theorem settleReads_clock (fresh : Bool) (state : State)
    (reads : List (Address × ℕ)) :
    (reads.foldl (State.settleRead fresh) state).clock = state.clock := by
  induction reads generalizing state with
  | nil => rfl
  | cons item rest ih =>
      rw [List.foldl_cons, ih, (settleRead_frame fresh state item).2.1]

theorem Sound.settleReads (hsound : Sound state) (fresh : Bool)
    (reads : List (Address × ℕ))
    (hlast : fresh = true → state.memo.closed = false → ∀ item ∈ reads,
      state.started item.1 = item.2) :
    Sound (reads.foldl (State.settleRead fresh) state) := by
  induction reads generalizing state with
  | nil => exact hsound
  | cons item rest ih =>
      rw [List.foldl_cons]
      obtain ⟨hclosed, _, hstarted⟩ := settleRead_frame fresh state item
      apply ih
      · simp only [State.settleRead]
        split
        case h_1 before instant hreading =>
          cases fresh with
          | true =>
              apply hsound.freshened hreading
              exact fun hopen => hlast rfl hopen item (List.mem_cons_self ..)
          | false => exact hsound.record hreading
        case h_2 => exact hsound
      · intro hfresh hopen other hmem
        rw [hstarted]
        exact hlast hfresh (hclosed ▸ hopen) other (List.mem_cons_of_mem _ hmem)

/-! ## A located key is recorded -/

/-- What recording leaves alone, and that it forgets no value. -/
structure Records (before after : State) : Prop where
  closed : after.memo.closed = before.memo.closed
  settledAt : after.settledAt = before.settledAt
  freshAt : after.freshAt = before.freshAt
  clock : after.clock = before.clock
  roots : after.roots = before.roots
  kept : ∀ address, after.value address = none → before.value address = none

theorem Records.refl (state : State) : Records state state :=
  ⟨rfl, rfl, rfl, rfl, rfl, fun _ => id⟩

theorem Records.trans {first second third : State}
    (hfirst : Records first second) (hsecond : Records second third) :
    Records first third where
  closed := hsecond.closed.trans hfirst.closed
  settledAt := hsecond.settledAt.trans hfirst.settledAt
  freshAt := hsecond.freshAt.trans hfirst.freshAt
  clock := hsecond.clock.trans hfirst.clock
  roots := hsecond.roots.trans hfirst.roots
  kept address hnone := hfirst.kept address (hsecond.kept address hnone)

theorem records_record (state : State) (address : Address) (read before : ℕ)
    (value : Value) : Records state (state.record address read before value) := by
  obtain ⟨hclosed, hfresh, hsettled, _, hclock, _, hroots, _⟩ :=
    record_frame state address read before value
  refine ⟨hclosed, hsettled, hfresh, hclock, hroots, fun other hnone => ?_⟩
  obtain hkept | ⟨_, _, _, entries, hentries, hrecorded⟩ :=
    record_cases state address read before value
  · rwa [hkept] at hnone
  · rw [hrecorded] at hnone
    simp only [value_setEntries] at hnone
    split at hnone
    case isTrue hstore =>
      rw [Function.update_apply] at hnone
      split at hnone
      case isTrue => cases hnone
      case isFalse => exact (value_of_entries (hstore ▸ hentries)).trans hnone
    case isFalse => exact hnone

theorem records_startRead (state : State) (address : Address) :
    Records state (state.startRead address) := by
  obtain ⟨hclosed, _, hclock, hsettled, hfresh, hroots⟩ :=
    startRead_frame state address
  exact ⟨hclosed, hsettled, hfresh, hclock, hroots,
    fun other hnone => (startRead_value state address other).symm.trans hnone⟩

theorem records_settleReads (state : State) (reads : List (Address × ℕ)) :
    Records state (reads.foldl (State.settleRead false) state) := by
  induction reads generalizing state with
  | nil => exact Records.refl state
  | cons item rest ih =>
      rw [List.foldl_cons]
      refine Records.trans ?_ (ih _)
      simp only [State.settleRead]
      split
      case h_1 => exact records_record ..
      case h_2 => exact Records.refl state

/-- The key is looked up under its own address. -/
theorem root_address {store : StoreIdentity} {storage : KVStorage}
    {key : JsString} (hroot : state.root store = some storage)
    (haddress : physicalStorageAddress storage key = some address) :
    address = ⟨store, key⟩ := by
  simp only [State.root, Option.map_eq_some_iff] at hroot
  obtain ⟨methods, _, rfl⟩ := hroot
  simp only [physicalStorageAddress] at haddress
  split at haddress
  case isTrue => exact (Option.some.inj haddress).symm
  case isFalse => cases haddress

theorem recordLocated_cases (state : State) (store : StoreIdentity)
    (pending : List Address) (instant : ℕ) (key : JsString) :
    State.recordLocated store pending instant state key = state ∨
      (∀ other ∈ pending, other.key ≠ key) ∧ state.memo.closed = false ∧
        state.value ⟨store, key⟩ = none ∧
        State.recordLocated store pending instant state key =
          (state.startRead ⟨store, key⟩).record ⟨store, key⟩
            (state.started ⟨store, key⟩ + 1) (state.version ⟨store, key⟩)
            (state.held instant ⟨store, key⟩) := by
  simp only [State.recordLocated]
  split
  case isTrue => exact Or.inl rfl
  case isFalse hfree =>
    have hpending : ∀ other ∈ pending, other.key ≠ key := by
      intro other hmem hkey
      apply hfree
      rw [List.any_eq_true]
      exact ⟨other, hmem, decide_eq_true hkey⟩
    split
    case h_1 => exact Or.inl rfl
    case h_2 storage hroot =>
      obtain hnone | ⟨address, known, haddress, _, hhit⟩ |
        ⟨address, haddress, hopen, hvalue, hmiss⟩ :=
          lookup_cases state storage key false
      · rw [hnone]
        exact Or.inl rfl
      · rw [hhit]
        exact Or.inl rfl
      · obtain rfl := root_address hroot haddress
        rw [hmiss]
        apply Or.inr
        refine ⟨hpending, hopen, hvalue rfl, ?_⟩
        simp only [startRead_reading, Function.update_self]

theorem records_recordLocated (state : State) (store : StoreIdentity)
    (pending : List Address) (instant : ℕ) (key : JsString) :
    Records state (State.recordLocated store pending instant state key) := by
  cases recordLocated_cases state store pending instant key with
  | inl hkept =>
      rw [hkept]
      exact Records.refl state
  | inr hrecorded =>
      rw [hrecorded.2.2.2]
      exact (records_startRead state _).trans (records_record ..)

theorem Sound.recordLocated (hsound : Sound state) (store : StoreIdentity)
    (pending : List Address) {instant : ℕ} (key : JsString)
    (hclock : instant ≤ state.clock)
    (htimely : (∀ other ∈ pending, other.key ≠ key) →
      state.memo.closed = false → state.value ⟨store, key⟩ = none →
        state.settledAt ⟨store, key⟩ ≤ instant ∧
          state.freshAt ⟨store, key⟩ ≤ instant) :
    Sound (State.recordLocated store pending instant state key) := by
  cases recordLocated_cases state store pending instant key with
  | inl hkept =>
      rw [hkept]
      exact hsound
  | inr hrecorded =>
      obtain ⟨hpending, hopen, hvalue, hlocated⟩ := hrecorded
      obtain ⟨hsettled, hfresh⟩ := htimely hpending hopen hvalue
      rw [hlocated]
      have hstart := hsound.startRead ⟨store, key⟩ hopen
      obtain ⟨hclosed, hheld, hclock', hsettled', hfresh', _⟩ :=
        startRead_frame state ⟨store, key⟩
      obtain hkept | ⟨_, _, _, entries, hentries, hset⟩ :=
        record_cases (state.startRead ⟨store, key⟩) ⟨store, key⟩
          (state.started ⟨store, key⟩ + 1) (state.version ⟨store, key⟩)
          (state.held instant ⟨store, key⟩)
      · rw [hkept]
        exact hstart
      · rw [hset, ← hheld]
        apply hstart.memoize (hclosed.trans hopen) hentries
        · rw [hsettled']
          exact hsettled
        · rw [hfresh']
          exact hfresh
        · rw [hclock']
          exact hclock
        · intro read reading hreading hlatest
          rw [startRead_started, if_pos rfl] at hlatest
          rw [← hlatest, startRead_reading, Function.update_self,
            Function.update_self] at hreading
          obtain rfl := Option.some.inj hreading
          exact startRead_version ..

theorem records_recordAll (state : State) (store : StoreIdentity)
    (pending : List Address) (instant : ℕ) (located : List JsString) :
    Records state
      (located.foldl (State.recordLocated store pending instant) state) := by
  induction located generalizing state with
  | nil => exact Records.refl state
  | cons key rest ih =>
      rw [List.foldl_cons]
      exact (records_recordLocated state store pending instant key).trans (ih _)

theorem Sound.recordAll (hsound : Sound state) (store : StoreIdentity)
    (pending : List Address) {instant : ℕ} (located : List JsString)
    (hclock : instant ≤ state.clock)
    (htimely : ∀ key ∈ located, (∀ other ∈ pending, other.key ≠ key) →
      state.memo.closed = false → state.value ⟨store, key⟩ = none →
        state.settledAt ⟨store, key⟩ ≤ instant ∧
          state.freshAt ⟨store, key⟩ ≤ instant) :
    Sound (located.foldl (State.recordLocated store pending instant) state) := by
  induction located generalizing state with
  | nil => exact hsound
  | cons key rest ih =>
      rw [List.foldl_cons]
      have hrecords := records_recordLocated state store pending instant key
      apply ih
      · apply hsound.recordLocated store pending key hclock
        exact htimely key (List.mem_cons_self ..)
      · rw [hrecords.clock]
        exact hclock
      · intro other hmem hpending hopen hvalue
        rw [hrecords.settledAt, hrecords.freshAt]
        apply htimely other (List.mem_cons_of_mem _ hmem) hpending
        · exact hrecords.closed.symm.trans hopen
        · exact hrecords.kept _ hvalue

/-! ## One step -/

/-- The calls, the writes and the storage objects are not part of what is kept. -/
theorem Sound.rest (hsound : Sound state) (calls : ℕ → Option Call)
    (writes : ℕ → Option Write)
    (roots : StoreIdentity → Option (StorageMethods × StorageMethods)) :
    Sound { state with calls := calls, writes := writes, roots := roots } := by
  refine ⟨hsound.settled, hsound.fresh, hsound.closed, hsound.registered,
    hsound.taken, ?_, hsound.memoized⟩
  intro hopen address read reading hreading
  obtain ⟨hbefore, hentered, hunsettled, hlatest, hdropped⟩ :=
    hsound.pending hopen address read reading hreading
  exact ⟨hbefore, hentered, hunsettled, hlatest, hdropped⟩

/-- A snapshot took its values at an instant that has passed. -/
def InTime (state : State) : Prop :=
  ∀ id store pending reads instant located,
    state.calls id = some (.locate store pending reads (some (instant, located))) →
      instant ≤ state.clock

theorem lookup_calls (state : State) (storage : KVStorage) (key : JsString)
    (fresh : Bool) :
    (state.lookup storage key fresh).1.calls = state.calls ∧
      (state.lookup storage key fresh).1.clock = state.clock := by
  have hstart : ∀ address, (state.startRead address).calls = state.calls := by
    intro address
    simp only [State.startRead, State.entriesFor]
    split <;> rfl
  obtain hnone | ⟨_, _, _, _, hhit⟩ | ⟨address, _, _, _, hmiss⟩ :=
    lookup_cases state storage key fresh
  · rw [hnone]
    exact ⟨rfl, rfl⟩
  · rw [hhit]
    exact ⟨rfl, rfl⟩
  · rw [hmiss]
    exact ⟨hstart address, (startRead_frame state address).2.2.1⟩

theorem lookupEach_calls (state : State) (requests : List (KVStorage × JsString)) :
    (state.lookupEach requests).1.calls = state.calls ∧
      (state.lookupEach requests).1.clock = state.clock := by
  induction requests generalizing state with
  | nil => exact ⟨rfl, rfl⟩
  | cons request rest ih =>
      obtain ⟨storage, key⟩ := request
      obtain ⟨hcalls, hclock⟩ := lookup_calls state storage key false
      obtain ⟨hcalls', hclock'⟩ := ih (state.lookup storage key false).1
      exact ⟨hcalls'.trans hcalls, hclock'.trans hclock⟩

theorem Sound.lookupEach (hsound : Sound state)
    (requests : List (KVStorage × JsString)) :
    Sound (state.lookupEach requests).1 := by
  induction requests generalizing state with
  | nil => exact hsound
  | cons request rest ih =>
      obtain ⟨storage, key⟩ := request
      exact ih (hsound.lookup storage key false)

/-- Calls that keep to their instants, with a call that has none yet. -/
theorem InTime.setCall (hintime : InTime state) {later : State} (id : ℕ)
    (call : Option Call) (hclock : state.clock ≤ later.clock)
    (hcalls : later.calls = Function.update state.calls id call)
    (hcall : ∀ store pending reads instant located,
      call = some (.locate store pending reads (some (instant, located))) →
        instant ≤ later.clock) : InTime later := by
  intro other store pending reads instant located hother
  rw [hcalls, Function.update_apply] at hother
  split at hother
  case isTrue => exact hcall store pending reads instant located hother
  case isFalse =>
    exact (hintime other store pending reads instant located hother).trans hclock

theorem InTime.same (hintime : InTime state) {later : State}
    (hclock : state.clock ≤ later.clock) (hcalls : later.calls = state.calls) :
    InTime later := by
  intro id store pending reads instant located hcall
  rw [hcalls] at hcall
  exact (hintime id store pending reads instant located hcall).trans hclock

/-- A prefetch starts reads, and at most a call for them. -/
theorem prefetch_cases (locates : KVStorage → Bool) (state : State) (id : ℕ)
    (requests : List (KVStorage × JsString)) (linked : Option Linked) :
    state.prefetch locates id requests linked =
        (state.lookupEach requests).1 ∨
      (∃ reads, state.prefetch locates id requests linked =
        (state.lookupEach requests).1.setCall id (.load false reads)) ∨
      ∃ store pending reads, state.prefetch locates id requests linked =
        (state.lookupEach requests).1.setCall id
          (.locate store pending reads none) := by
  simp only [State.prefetch]
  split
  case h_1 store storage _ _ =>
    split
    case isTrue => exact Or.inl rfl
    case isFalse =>
      split
      case isTrue => exact Or.inl rfl
      case isFalse =>
        split
        case isTrue => exact Or.inr (Or.inr ⟨_, _, _, rfl⟩)
        case isFalse => exact Or.inr (Or.inl ⟨_, rfl⟩)
  case h_2 => exact Or.inl rfl

theorem Sound.setCall (hsound : Sound state) (id : ℕ) (call : Call) :
    Sound (state.setCall id call) :=
  hsound.rest _ _ _

theorem Sound.prefetch (hsound : Sound state) (hintime : InTime state)
    (locates : KVStorage → Bool) (id : ℕ)
    (requests : List (KVStorage × JsString)) (linked : Option Linked) :
    Sound (state.prefetch locates id requests linked) ∧
      InTime (state.prefetch locates id requests linked) := by
  have heach := hsound.lookupEach requests
  obtain ⟨hcalls, hclock⟩ := lookupEach_calls state requests
  obtain hsame | ⟨reads, hload⟩ | ⟨store, pending, reads, hlocate⟩ :=
    prefetch_cases locates state id requests linked
  · rw [hsame]
    exact ⟨heach, hintime.same hclock.ge hcalls⟩
  · rw [hload]
    refine ⟨heach.setCall id _,
      hintime.setCall id (some (.load false reads)) hclock.ge ?_ ?_⟩
    · simp only [State.setCall, hcalls]
    · intro _ _ _ _ _ hcall
      cases hcall
  · rw [hlocate]
    refine ⟨heach.setCall id _, hintime.setCall id
      (some (.locate store pending reads none)) hclock.ge ?_ ?_⟩
    · simp only [State.setCall, hcalls]
    · intro _ _ _ _ _ hcall
      cases hcall

theorem Sound.takes (hsound : Sound state) (reads : List (Address × ℕ)) :
    Sound (reads.foldl State.take state) := by
  induction reads generalizing state with
  | nil => exact hsound
  | cons item rest ih => exact ih (hsound.take item)

theorem take_calls (state : State) (item : Address × ℕ) :
    (state.take item).calls = state.calls ∧
      (state.take item).clock = state.clock := by
  simp only [State.take]
  split <;> exact ⟨rfl, rfl⟩

theorem takes_calls (state : State) (reads : List (Address × ℕ)) :
    (reads.foldl State.take state).calls = state.calls ∧
      (reads.foldl State.take state).clock = state.clock := by
  induction reads generalizing state with
  | nil => exact ⟨rfl, rfl⟩
  | cons item rest ih =>
      obtain ⟨hcalls, hclock⟩ := take_calls state item
      obtain ⟨hcalls', hclock'⟩ := ih (state.take item)
      exact ⟨hcalls'.trans hcalls, hclock'.trans hclock⟩

theorem Sound.close (hsound : Sound state) : Sound state.close := by
  simp only [State.close]
  split
  case isTrue => exact hsound
  case isFalse =>
    refine ⟨hsound.settled, hsound.fresh, fun _ _ => rfl, ?_, hsound.taken, ?_, ?_⟩
    · exact fun store hstore => absurd rfl hstore
    · intro hopen
      cases hopen
    · intro address value hvalue
      cases hvalue

/-- A call settles. -/
theorem Sound.settle (hsound : Sound state) (hintime : InTime state)
    {locates : KVStorage → Bool} {id : ℕ} {later : State} {emitted : List Empty}
    (htimely : state.overtaken (.settle id) = false)
    (hmove : state.step locates (.settle id) = some (later, emitted)) :
    Sound later ∧ InTime later := by
  simp only [State.step] at hmove
  split at hmove
  case h_1 fresh reads hcall =>
    split at hmove
    case isFalse => cases hmove
    case isTrue =>
      obtain ⟨rfl, rfl⟩ := Prod.mk.inj (Option.some.inj hmove)
      have hsettled : Sound (reads.foldl (State.settleRead fresh) state) := by
        apply hsound.settleReads
        intro hfresh hopen item hmem
        by_contra hlate
        subst hfresh
        simp only [State.overtaken, hcall, hopen, Bool.not_false, Bool.true_and,
          List.any_eq_false, decide_eq_true_eq] at htimely
        exact htimely item hmem hlate
      refine ⟨hsettled.rest _ _ _, ?_⟩
      apply hintime.setCall id none
      · exact (settleReads_clock fresh state reads).ge
      · rfl
      · intro _ _ _ _ _ hnone
        cases hnone
  case h_2 store pending reads instant located hcall =>
    obtain ⟨rfl, rfl⟩ := Prod.mk.inj (Option.some.inj hmove)
    have hreads := records_settleReads state reads
    have hsettled : Sound (reads.foldl (State.settleRead false) state) := by
      apply hsound.settleReads
      intro hfresh
      cases hfresh
    have hclock := hintime id store pending reads instant located hcall
    have hrecords := records_recordAll
      (reads.foldl (State.settleRead false) state) store pending instant located
    have hrecorded : Sound (located.foldl
        (State.recordLocated store pending instant)
        (reads.foldl (State.settleRead false) state)) := by
      apply hsettled.recordAll store pending located (hreads.clock ▸ hclock)
      intro key hmem hpending hopen hvalue
      rw [hreads.closed] at hopen
      have hvalue := hreads.kept _ hvalue
      rw [hreads.settledAt, hreads.freshAt]
      simp only [State.overtaken, hcall, hopen, Bool.not_false, Bool.true_and,
        List.any_eq_false] at htimely
      have hkey := htimely key hmem
      rw [hvalue] at hkey
      have hfree : (pending.any fun other => decide (other.key = key)) =
          false := by
        rw [List.any_eq_false]
        exact fun other hother => by simpa using hpending other hother
      simpa [hfree] using hkey
    refine ⟨hrecorded.rest _ _ _, ?_⟩
    apply hintime.setCall id none
    · exact (hrecords.clock.trans hreads.clock).ge
    · rfl
    · intro _ _ _ _ _ hnone
      cases hnone
  case h_3 => cases hmove

theorem note_frame (state : State) (address : Address) :
    (state.noteStorageWrite address).calls = state.calls ∧
      (state.noteStorageWrite address).clock = state.clock ∧
      (state.noteStorageWrite address).settledAt = state.settledAt := by
  simp only [State.noteStorageWrite, State.changed]
  split
  case isTrue =>
    split <;> exact ⟨rfl, rfl, rfl⟩
  case isFalse => exact ⟨rfl, rfl, rfl⟩

theorem Sound.step (hsound : Sound state) (hintime : InTime state)
    {locates : KVStorage → Bool} {event : Event} {later : State}
    {emitted : List Empty} (htimely : state.overtaken event = false)
    (hmove : state.step locates event = some (later, emitted)) :
    Sound later ∧ InTime later := by
  cases event with
  | read id storage key fresh =>
      obtain ⟨hcalls, hclock⟩ := lookup_calls state storage key fresh
      have hlookup := hsound.lookup storage key fresh
      simp only [State.step] at hmove
      split at hmove
      case isTrue => cases hmove
      case isFalse =>
        split at hmove
        case h_1 looked address read hfound =>
          obtain ⟨rfl, rfl⟩ := Prod.mk.inj (Option.some.inj hmove)
          rw [hfound] at hlookup hcalls hclock
          refine ⟨hlookup.setCall id _,
            hintime.setCall id (some (.load fresh [(address, read)])) ?_ ?_ ?_⟩
          · exact hclock.ge
          · have hcalls : looked.calls = state.calls := hcalls
            simp only [State.setCall, hcalls]
          · intro _ _ _ _ _ hcall
            cases hcall
        case h_2 looked found hmiss hfound =>
          obtain ⟨rfl, rfl⟩ := Prod.mk.inj (Option.some.inj hmove)
          rw [hfound] at hlookup hcalls hclock
          exact ⟨hlookup, hintime.same hclock.ge hcalls⟩
  | prefetch id requests linked =>
      simp only [State.step] at hmove
      split at hmove
      case isTrue => cases hmove
      case isFalse =>
        obtain ⟨rfl, rfl⟩ := Prod.mk.inj (Option.some.inj hmove)
        exact hsound.prefetch hintime locates id requests linked
  | take id item =>
      simp only [State.step] at hmove
      split at hmove
      case h_2 => cases hmove
      case h_1 =>
        split at hmove
        case isFalse => cases hmove
        case isTrue =>
          obtain ⟨rfl, rfl⟩ := Prod.mk.inj (Option.some.inj hmove)
          obtain ⟨hcalls, hclock⟩ := take_calls state item
          exact ⟨hsound.take item, hintime.same hclock.ge hcalls⟩
  | locate id located =>
      simp only [State.step] at hmove
      split at hmove
      case h_2 => cases hmove
      case h_1 store pending reads hcall =>
        obtain ⟨rfl, rfl⟩ := Prod.mk.inj (Option.some.inj hmove)
        obtain ⟨hcalls, hclock⟩ := takes_calls state reads
        refine ⟨(hsound.takes reads).setCall id _, hintime.setCall id (some
          (.locate store pending reads (some (state.clock, located)))) ?_ ?_ ?_⟩
        · exact hclock.ge
        · simp only [State.setCall, hcalls]
        · intro _ _ _ _ _ hsame
          simp only [Option.some.injEq, Call.locate.injEq, Prod.mk.injEq] at hsame
          rw [← hsame.2.2.2.1]
          exact hclock.ge
  | settle id => exact hsound.settle hintime htimely hmove
  | submit writer storage key update =>
      simp only [State.step] at hmove
      split at hmove
      case h_2 => cases hmove
      case h_1 address _ _ =>
        obtain ⟨rfl, rfl⟩ := Prod.mk.inj (Option.some.inj hmove)
        have hnoted := hsound.noted address (Or.inl rfl)
        obtain ⟨hcalls, hclock, hsettled⟩ := note_frame state address
        have hsame : { state.noteStorageWrite address with
            settledAt := state.settledAt } = state.noteStorageWrite address := by
          rw [← hsettled]
        rw [hsame] at hnoted
        exact ⟨hnoted.rest _ _ _, hintime.same hclock.ge hcalls⟩
  | apply writer =>
      simp only [State.step] at hmove
      split at hmove
      case h_2 => cases hmove
      case h_1 write _ =>
        split at hmove
        case isTrue => cases hmove
        case isFalse =>
          obtain ⟨rfl, rfl⟩ := Prod.mk.inj (Option.some.inj hmove)
          have hchange := hsound.change write.address
            (write.update (state.held state.clock write.address))
          exact ⟨hchange.rest _ _ _, hintime.same (Nat.le_succ _) rfl⟩
  | settleWrite writer =>
      simp only [State.step] at hmove
      split at hmove
      case h_2 => cases hmove
      case h_1 write _ =>
        split at hmove
        case isTrue => cases hmove
        case isFalse =>
          obtain ⟨rfl, rfl⟩ := Prod.mk.inj (Option.some.inj hmove)
          have hnoted := hsound.noted write.address (Or.inr rfl)
          obtain ⟨hcalls, hclock, _⟩ := note_frame state write.address
          exact ⟨hnoted.rest _ _ _, hintime.same hclock.ge hcalls⟩
  | external address value =>
      obtain ⟨rfl, rfl⟩ := Prod.mk.inj (Option.some.inj hmove)
      exact ⟨hsound.change address value, hintime.same (Nat.le_succ _) rfl⟩
  | replace store methods =>
      obtain ⟨rfl, rfl⟩ := Prod.mk.inj (Option.some.inj hmove)
      exact ⟨hsound.rest _ _ _, hintime⟩
  | close =>
      obtain ⟨rfl, rfl⟩ := Prod.mk.inj (Option.some.inj hmove)
      refine ⟨hsound.close, ?_⟩
      simp only [State.close]
      split
      case isTrue => exact hintime
      case isFalse => exact hintime

theorem sound_init {locates : KVStorage → Bool}
    (hinit : (memoReads locates).init state) : Sound state ∧ InTime state := by
  obtain ⟨hopen, hstores, hreading, hcalls, _, hclock, hsettled, hfresh⟩ := hinit
  constructor
  · constructor
    · exact fun address => (hsettled address).le.trans (Nat.zero_le _)
    · exact fun address => (hfresh address).le.trans (Nat.zero_le _)
    · intro hshut
      rw [hopen] at hshut
      cases hshut
    · exact fun store hstore => absurd (hstores store).1 hstore
    · intro address read reading instant hsome
      rw [hreading] at hsome
      cases hsome
    · intro _ address read reading hsome
      rw [hreading] at hsome
      cases hsome
    · intro address value hvalue
      rw [State.value, (hstores _).1] at hvalue
      cases hvalue
  · intro id store pending reads instant located hcall
    rw [hcalls] at hcall
    cases hcall

/-- A memoized answer is current in every state of every run in which no fresh
read settles behind a later read of its key and no located key is recorded from
a snapshot older than its last settled write or fresh read. -/
theorem memoized_answers_current (locates : KVStorage → Bool) {state : State}
    (hreach : ((memoReads locates).restrict fun state event =>
      !state.overtaken event).Reachable state) : state.Current := by
  have hkept : Sound state ∧ InTime state := by
    apply hreach.invariant (motive := fun state => Sound state ∧ InTime state)
    · intro state hinit
      have hstart : (memoReads locates).init state := hinit
      exact sound_init hstart
    · intro state event later emitted hkept hmove
      obtain ⟨htimely, hmove⟩ := Machine.restrict_step hmove
      rw [Bool.not_eq_true'] at htimely
      exact hkept.1.step hkept.2 htimely hmove
  exact hkept.1.current

/-! ## One store -/

def ownMethods : StorageMethods := ⟨0, 1, 2, 3, 4⟩

/-- A store that observes its writes, and its catalog generation and one entry. -/
def oneStore : KVStorage := .root ownMethods ownMethods 0

def generation : JsString := [103]

def locatedEntry : JsString := [101]

def oneStart : State where
  memo := { weak := true, closed := false, stores := fun _ => none }
  registered _ := false
  roots _ := some (ownMethods, ownMethods)
  reading _ _ := none
  calls _ := none
  writes _ := none
  held _ address :=
    if address.key = generation then some [49]
    else if address.key = locatedEntry then some [50]
    else none
  clock := 0
  settledAt _ := 0
  freshAt _ := 0

theorem oneStart_init : (memoReads fun _ => true).init oneStart :=
  ⟨rfl, fun _ => ⟨rfl, rfl⟩, fun _ _ => rfl, fun _ => rfl, fun _ => rfl, rfl,
    fun _ => rfl, fun _ => rfl⟩

theorem memoized_answers_current_one_read :
    ∃ state : State, state.Answers oneStore generation (some [49]) ∧
      state.Current := by
  let machine := (memoReads fun _ => true).restrict fun state event =>
    !state.overtaken event
  obtain ⟨⟨final, reports⟩, hexecute⟩ : ∃ result, machine.execute oneStart
      [.read 0 oneStore generation false, .take 0 (⟨0, generation⟩, 1),
        .settle 0] = some result := ⟨_, rfl⟩
  have hrun := (Machine.Run.start oneStart_init : machine.Run oneStart []).execute
    _ hexecute
  refine ⟨final, ?_, memoized_answers_current _ ⟨_, hrun⟩⟩
  have hfinal := (congrArg Prod.fst (Option.some.inj hexecute)).symm
  simp only [State.Answers]
  rw [show final = _ from hfinal]
  rfl

/-- The isolate writes the located entry while the locating snapshot is on its
way, and the write settles.  The entry is then looked up, after the write, and
recorded as the snapshot found it. -/
theorem located_entry_hides_write :
    ¬ ∀ (locates : KVStorage → Bool) (state : State),
      (memoReads locates).Reachable state → state.Current := by
  intro hclaim
  let machine := memoReads fun _ => true
  obtain ⟨⟨final, reports⟩, hexecute⟩ : ∃ result, machine.execute oneStart
      [.prefetch 0 [(oneStore, generation)] (some ⟨oneStore, generation, []⟩),
        .locate 0 [locatedEntry], .submit 0 oneStore locatedEntry fun _ => none,
        .apply 0, .settleWrite 0, .settle 0] = some result := ⟨_, rfl⟩
  have hrun := (Machine.Run.start oneStart_init : machine.Run oneStart []).execute
    _ hexecute
  have hfinal : final = _ := (congrArg Prod.fst (Option.some.inj hexecute)).symm
  have hanswers : final.Answers oneStore locatedEntry (some [50]) := by
    simp only [State.Answers]
    rw [hfinal]
    rfl
  obtain ⟨address, instant, hreaches, hsettled, _, hclock, hheld⟩ :=
    hclaim _ final ⟨_, hrun⟩ _ _ _ hanswers
  have haddress : address = ⟨0, locatedEntry⟩ := (Option.some.inj hreaches).symm
  have hfirst : final.settledAt ⟨0, locatedEntry⟩ = 1 := by
    rw [hfinal]
    rfl
  have hlast : final.clock = 1 := by
    rw [hfinal]
    rfl
  have hinstant : instant = 1 := by
    rw [haddress, hfirst] at hsettled
    omega
  have hdeleted : final.held 1 ⟨0, locatedEntry⟩ = none := by
    rw [hfinal]
    rfl
  rw [hinstant, haddress, hdeleted] at hheld
  cases hheld

end Connecta.RequestReads
