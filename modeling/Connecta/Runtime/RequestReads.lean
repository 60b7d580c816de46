import Mathlib
import Connecta.Foundation.Transition
import Connecta.Runtime.Utf16

/-!
# Request-scoped memo of storage reads

One memo over stores whose writes it observes.  A read either answers from the
memo or starts a storage read, which takes its value at one instant and is
recorded when it settles; a write is noted before it is submitted and again when
it settles, and changes the store at some instant in between, later, or never.
The state keeps what each key held after every change of a store, so that a
memoized value can be compared with what the store really held.
-/

namespace Connecta.RequestReads

open Connecta.Runtime
open Connecta.Transition

/-- One physical store's identity. -/
abbrev StoreIdentity := ℕ

/-- The methods of a storage object, each by its identity. -/
structure StorageMethods where
  get : ℕ
  set : ℕ
  delete : ℕ
  list : ℕ
  compareAndSet : ℕ
  deriving DecidableEq

/-- A storage object: the methods it has now and, where `observeStorageWrites`
was told of it, those it had then and its layer. -/
inductive KVStorage where
  | custom (methods : StorageMethods)
  | root (methods own : StorageMethods) (store : StoreIdentity)
  | view (methods own : StorageMethods) (storage : KVStorage)
      (keyPrefix : JsString)

structure Address where
  store : StoreIdentity
  key : JsString
  deriving DecidableEq

/-- The underlying store and key, when every layer is observed. -/
def physicalStorageAddress : KVStorage → JsString → Option Address
  | .custom _, _ => none
  | .root methods own store, key =>
      if own = methods then some ⟨store, key⟩ else none
  | .view methods own storage keyPrefix, key =>
      if own = methods then physicalStorageAddress storage (keyPrefix ++ key)
      else none

/-- Where the storage object's own `get` of a key ends up: a view asks the
storage under it for the key behind its own part. -/
def KVStorage.reaches : KVStorage → JsString → Option Address
  | .custom _, _ => none
  | .root _ _ store, key => some ⟨store, key⟩
  | .view _ _ storage keyPrefix, key => storage.reaches (keyPrefix ++ key)

/-- A stored value, absent as `null`. -/
abbrev Value := Option JsString

/-- `versions` and `started` are at 0 for a key they do not hold. -/
structure StoreEntries where
  values : JsString → Option Value
  versions : JsString → ℕ
  started : JsString → ℕ

def StoreEntries.empty : StoreEntries where
  values _ := none
  versions _ := 0
  started _ := 0

/-- `weak`: the runtime has weak references. -/
structure Memo where
  weak : Bool
  closed : Bool
  stores : StoreIdentity → Option StoreEntries

/-- A storage read that was started: the version its key had, and the instant at
which it took its value. -/
structure Reading where
  before : ℕ
  taken : Option ℕ

/-- What `load` answers is recorded read by read; what the locating snapshot
answers covers the located keys too. -/
inductive Call where
  | load (fresh : Bool) (reads : List (Address × ℕ))
  | locate (store : StoreIdentity) (pending : List Address)
      (reads : List (Address × ℕ)) (located : Option (ℕ × List JsString))

/-- A `set`, `delete` or `compareAndSet` of one key: what it makes of the value
it finds. -/
structure Write where
  address : Address
  update : Value → Value
  applied : Bool
  settled : Bool

structure State where
  memo : Memo
  /-- The open memos of each store hold this one. -/
  registered : StoreIdentity → Bool
  /-- The storage object of each store: its methods now, and its own. -/
  roots : StoreIdentity → Option (StorageMethods × StorageMethods)
  reading : Address → ℕ → Option Reading
  calls : ℕ → Option Call
  writes : ℕ → Option Write
  /-- What each key held after each change. -/
  held : ℕ → Address → Value
  clock : ℕ
  /-- The instant at which the last observed write to settle did. -/
  settledAt : Address → ℕ
  /-- The last instant at which a settled fresh read took its value. -/
  freshAt : Address → ℕ

inductive Found where
  | hit (value : Value)
  | miss (address : Address) (read : ℕ)

namespace State

def setEntries (state : State) (store : StoreIdentity) (entries : StoreEntries) :
    State :=
  { state with
    memo := { state.memo with
      stores := Function.update state.memo.stores store (some entries) } }

def entriesFor (state : State) (store : StoreIdentity) : State × StoreEntries :=
  match state.memo.stores store with
  | some entries => (state, entries)
  | none =>
      ({ state.setEntries store .empty with
          registered := Function.update state.registered store true }, .empty)

/-- A write notice: forget the key and refuse any read of it in flight. -/
def changed (state : State) (address : Address) : State :=
  match state.memo.stores address.store with
  | none => state
  | some entries =>
      state.setEntries address.store
        { entries with
          values := Function.update entries.values address.key none
          versions := Function.update entries.versions address.key
            (entries.versions address.key + 1) }

def noteStorageWrite (state : State) (address : Address) : State :=
  if state.registered address.store then state.changed address else state

/-- A memoized answer, or the storage read that was started in its place. -/
def lookup (state : State) (storage : KVStorage) (key : JsString)
    (fresh : Bool) : State × Option Found :=
  if state.memo.closed || !state.memo.weak then (state, none)
  else
    match physicalStorageAddress storage key with
    | none => (state, none)
    | some address =>
        let (state, entries) := state.entriesFor address.store
        match fresh, entries.values address.key with
        | false, some value => (state, some (.hit value))
        | _, _ =>
            let read := entries.started address.key + 1
            let started := state.setEntries address.store
              { entries with
                started := Function.update entries.started address.key read }
            ({ started with
                reading := Function.update state.reading address
                  (Function.update (state.reading address) read
                    (some ⟨entries.versions address.key, none⟩)) },
              some (.miss address read))

/-- `record` of a read that was started at version `before`. -/
def record (state : State) (address : Address) (read before : ℕ)
    (value : Value) : State :=
  match state.memo.stores address.store with
  | none => state
  | some entries =>
      if !state.memo.closed && entries.started address.key == read &&
          entries.versions address.key == before then
        state.setEntries address.store
          { entries with
            values := Function.update entries.values address.key (some value) }
      else state

/-- A storage read settles. -/
def settleRead (fresh : Bool) (state : State) (item : Address × ℕ) : State :=
  match state.reading item.1 item.2 with
  | some ⟨before, some instant⟩ =>
      let recorded := state.record item.1 item.2 before (state.held instant item.1)
      if fresh then
        { recorded with
          freshAt := Function.update recorded.freshAt item.1
            (max (recorded.freshAt item.1) instant) }
      else recorded
  | _ => state

/-- The storage object of a store. -/
def root (state : State) (store : StoreIdentity) : Option KVStorage :=
  (state.roots store).map fun methods => .root methods.1 methods.2 store

/-- A located key: looked up and recorded once the snapshot is there. -/
def recordLocated (store : StoreIdentity) (pending : List Address) (instant : ℕ)
    (state : State) (key : JsString) : State :=
  if pending.any fun address => address.key = key then state
  else
    match state.root store with
    | none => state
    | some storage =>
        match state.lookup storage key false with
        | (looked, some (.miss address read)) =>
            match looked.reading address read with
            | some reading =>
                looked.record address read reading.before
                  (state.held instant ⟨store, key⟩)
            | none => looked
        | (looked, _) => looked

/-- `requests.map(...)`: the address and the lookup of each. -/
def lookupEach (state : State) :
    List (KVStorage × JsString) → State × List (Option Address × Option Found)
  | [] => (state, [])
  | (storage, key) :: rest =>
      let (looked, found) := state.lookup storage key false
      let (last, pending) := looked.lookupEach rest
      (last, (physicalStorageAddress storage key, found) :: pending)

end State

/-- What a prefetch links to its requests. -/
structure Linked where
  storage : KVStorage
  generationKey : JsString
  keyPrefix : JsString

def Found.isHit : Found → Bool
  | .hit _ => true
  | .miss _ _ => false

def Found.read : Found → Option (Address × ℕ)
  | .hit _ => none
  | .miss address read => some (address, read)

namespace State

def setCall (state : State) (id : ℕ) (call : Call) : State :=
  { state with calls := Function.update state.calls id (some call) }

/-- `locates`: the native storage has a catalog snapshot. -/
def prefetch (locates : KVStorage → Bool) (state : State) (id : ℕ)
    (requests : List (KVStorage × JsString)) (linked : Option Linked) : State :=
  let (state, pending) := state.lookupEach requests
  let store := (pending.head?.bind Prod.fst).map Address.store
  match store, store.bind state.root with
  | some store, some storage =>
      if pending.any fun entry =>
          entry.2.isNone || entry.1.map Address.store ≠ some store then state
      else if pending.all fun entry => entry.2.any Found.isHit then state
      else
        let reads := pending.filterMap fun entry => entry.2.bind Found.read
        let located := linked.any fun linked => locates storage &&
          (physicalStorageAddress linked.storage linked.generationKey).map
              Address.store = some store &&
          (physicalStorageAddress linked.storage linked.keyPrefix).map
              Address.store = some store
        if located then
          state.setCall id (.locate store (pending.filterMap Prod.fst) reads none)
        else state.setCall id (.load false reads)
  | _, _ => state

/-- A storage read takes its value now. -/
def take (state : State) (item : Address × ℕ) : State :=
  match state.reading item.1 item.2 with
  | none => state
  | some reading =>
      { state with
        reading := Function.update state.reading item.1
          (Function.update (state.reading item.1) item.2
            (some { reading with taken := some state.clock })) }

def isTaken (state : State) (item : Address × ℕ) : Bool :=
  (state.reading item.1 item.2).any fun reading => reading.taken.isSome

/-- A store changes at one of its keys. -/
def change (state : State) (address : Address) (value : Value) : State :=
  { state with
    held := Function.update state.held (state.clock + 1)
      (Function.update (state.held state.clock) address value)
    clock := state.clock + 1 }

/-- `close()` -/
def close (state : State) : State :=
  if state.memo.closed then state
  else
    { state with
      memo := { state.memo with closed := true, stores := fun _ => none }
      registered := fun store =>
        state.registered store && (state.memo.stores store).isNone }

end State

inductive Event where
  | read (id : ℕ) (storage : KVStorage) (key : JsString) (fresh : Bool)
  | prefetch (id : ℕ) (requests : List (KVStorage × JsString))
      (linked : Option Linked)
  /-- A read of a call takes its value. -/
  | take (id : ℕ) (item : Address × ℕ)
  /-- The locating snapshot takes its values, with these located keys. -/
  | locate (id : ℕ) (located : List JsString)
  | settle (id : ℕ)
  | submit (writer : ℕ) (storage : KVStorage) (key : JsString)
      (update : Value → Value)
  | apply (writer : ℕ)
  | settleWrite (writer : ℕ)
  /-- A change the isolate does not observe: another isolate, or expiry. -/
  | external (address : Address) (value : Value)
  | replace (store : StoreIdentity) (methods : StorageMethods)
  | close

/-- A call that fails and a caller that stops are calls that never settle. -/
def State.step (locates : KVStorage → Bool) (state : State) :
    Event → Option (State × List Empty)
  | .read id storage key fresh =>
      if (state.calls id).isSome then none
      else
        match state.lookup storage key fresh with
        | (looked, some (.miss address read)) =>
            some (looked.setCall id (.load fresh [(address, read)]), [])
        | (looked, _) => some (looked, [])
  | .prefetch id requests linked =>
      if (state.calls id).isSome then none
      else some (state.prefetch locates id requests linked, [])
  | .take id item =>
      match state.calls id with
      | some (.load _ reads) =>
          if item ∈ reads ∧ state.isTaken item = false then
            some (state.take item, [])
          else none
      | _ => none
  | .locate id located =>
      match state.calls id with
      | some (.locate store pending reads none) =>
          some ((reads.foldl State.take state).setCall id
            (.locate store pending reads (some (state.clock, located))), [])
      | _ => none
  | .settle id =>
      match state.calls id with
      | some (.load fresh reads) =>
          if reads.all state.isTaken then
            some ({ reads.foldl (State.settleRead fresh) state with
              calls := Function.update state.calls id none }, [])
          else none
      | some (.locate store pending reads (some (instant, located))) =>
          let recorded := located.foldl
            (State.recordLocated store pending instant)
            (reads.foldl (State.settleRead false) state)
          some ({ recorded with
            calls := Function.update state.calls id none }, [])
      | _ => none
  | .submit writer storage key update =>
      match state.writes writer, physicalStorageAddress storage key with
      | none, some address =>
          some ({ state.noteStorageWrite address with
            writes := Function.update state.writes writer
              (some ⟨address, update, false, false⟩) }, [])
      | _, _ => none
  | .apply writer =>
      match state.writes writer with
      | some write =>
          if write.applied then none
          else
            let value := state.held state.clock write.address
            some ({ state.change write.address (write.update value) with
              writes := Function.update state.writes writer
                (some { write with applied := true }) }, [])
      | none => none
  | .settleWrite writer =>
      match state.writes writer with
      | some write =>
          if write.settled then none
          else
            some ({ state.noteStorageWrite write.address with
              settledAt := Function.update state.settledAt write.address
                state.clock
              writes := Function.update state.writes writer
                (some { write with settled := true }) }, [])
      | none => none
  | .external address value => some (state.change address value, [])
  | .replace store methods =>
      some ({ state with
        roots := Function.update state.roots store
          ((state.roots store).map fun known => (methods, known.2)) }, [])
  | .close => some (state.close, [])

def memoReads (locates : KVStorage → Bool) : Machine State Event Empty where
  init state := state.memo.closed = false ∧
    (∀ store, state.memo.stores store = none ∧
      state.registered store = false) ∧
    (∀ address read, state.reading address read = none) ∧
    (∀ id, state.calls id = none) ∧ (∀ writer, state.writes writer = none) ∧
    state.clock = 0 ∧ (∀ address, state.settledAt address = 0) ∧
    ∀ address, state.freshAt address = 0
  step := State.step locates

/-! ## What a memoized answer promises -/

/-- A plain read of the key is answered from the memo. -/
def State.Answers (state : State) (storage : KVStorage) (key : JsString)
    (value : Value) : Prop :=
  (state.lookup storage key false).2 = some (.hit value)

/-- The answer is what the key the storage object reaches held at an instant not
before the last observed write to it settled, nor before any fresh read of it
that has settled took its value. -/
def State.Current (state : State) : Prop :=
  ∀ storage key value, state.Answers storage key value →
    ∃ address instant, storage.reaches key = some address ∧
      state.settledAt address ≤ instant ∧ state.freshAt address ≤ instant ∧
      instant ≤ state.clock ∧ state.held instant address = value

def State.value (state : State) (address : Address) : Option Value :=
  (state.memo.stores address.store).bind fun entries =>
    entries.values address.key

def State.started (state : State) (address : Address) : ℕ :=
  ((state.memo.stores address.store).map fun entries =>
    entries.started address.key).getD 0

/-- A fresh read is about to settle behind a read of its key that was started
later; or a located key is about to be recorded from a snapshot older than the
last observed write to settle or the last fresh read. -/
def State.overtaken (state : State) : Event → Bool
  | .settle id =>
      !state.memo.closed &&
        match state.calls id with
        | some (.load true reads) =>
            reads.any fun item => state.started item.1 ≠ item.2
        | some (.locate store pending _ (some (instant, located))) =>
            located.any fun key =>
              let address : Address := ⟨store, key⟩
              !(pending.any fun other => other.key = key) &&
                (state.value address).isNone &&
                (instant < state.settledAt address ||
                  instant < state.freshAt address)
        | _ => false
  | _ => false

end Connecta.RequestReads
