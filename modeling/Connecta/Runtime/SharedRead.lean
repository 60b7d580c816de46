import Mathlib
import Connecta.Foundation.OrderedMap
import Connecta.Foundation.Transition

/-!
# Shared catalog reads

A read that several readers wait for owns its signal.  Each reader waits in a
race of its own: the read's outcome against the abort of the reader's signal.
Whichever contender is resumed first wins, and the reader leaves once the other
one is cleaned up.  Between any two of these steps other readers, the request
and the read go on.
-/

namespace Connecta.SharedRead

open Connecta.Foundation
open Connecta.Transition

variable (Value Reason : Type)

/-- What the effect of a read ended with. -/
inductive Exit where
  | success (value : Value)
  | failure (error : Reason)
  | interruption

/-- What a join ended with. -/
inductive Ending where
  | answer (exit : Exit Value Reason)
  | left (reason : Reason)
  | interrupted

/-- How far a join has come. -/
inductive Stage where
  | counted
  | started
  | awaiting
  /-- Its abort listener is registered. -/
  | listening
  /-- Its abort listener was removed. -/
  | unheard
  deriving DecidableEq

structure Reader where
  /-- The reader's signal, and its reason once it has aborted. -/
  signal : Option (Option Reason)
  stage : Stage
  /-- The contender that won the race. -/
  verdict : Option (Ending Value Reason)
  interrupted : Bool
  waiting : Bool
  result : Option (Ending Value Reason)

/-- What others see of a read. -/
inductive Note where
  /-- The read's signal aborts. -/
  | aborts (reason : Option Reason)
  | onEnd (succeeded : Bool)
  /-- The outcome is recorded, which resumes everyone who awaits it. -/
  | settles (exit : Exit Value Reason)
  | returns (index : ℕ) (ending : Ending Value Reason)

/-- `SharedRead` -/
structure Read where
  /-- Why the request ended, once it has. -/
  closed : Option Reason
  /-- The reason of `controller`'s signal. -/
  aborted : Option (Option Reason)
  outcome : Option (Exit Value Reason)
  readers : ℤ
  ended : Bool
  started : Bool
  /-- The forked read has yet to exit. -/
  running : Bool
  /-- `releaseRequest`: the request owns a finalizer of this read. -/
  owned : Bool
  /-- The calls of `cancel` that have aborted the signal and not ended yet. -/
  ending : ℕ
  joins : List (Reader Value Reason)
  notes : List (Note Value Reason)

inductive Event where
  | close (reason : Reason)
  | join (signal : Option (Option Reason))
  | start (index : ℕ)
  | await (index : ℕ)
  | listen (index : ℕ)
  | abort (index : ℕ) (reason : Reason)
  /-- The race is over, and the abort listener that lost is removed. -/
  | unlisten (index : ℕ)
  | interrupt (index : ℕ)
  | leave (index : ℕ)
  /-- A call of `cancel` goes on once the signal's listeners have run. -/
  | endCancelled
  | settle (exit : Exit Value Reason)

variable {Value Reason}

namespace Exit

def isSuccess : Exit Value Reason → Bool
  | .success _ => true
  | .failure _ | .interruption => false

end Exit

namespace Reader

/-- Nothing has decided what this reader returns. -/
def undecided (reader : Reader Value Reason) : Bool :=
  reader.verdict.isNone && !reader.interrupted

def decide (reader : Reader Value Reason) (ending : Ending Value Reason) :
    Reader Value Reason :=
  if reader.undecided then { reader with verdict := some ending } else reader

/-- The recorded outcome reaches a reader that awaits it. -/
def hear (exit : Exit Value Reason) (reader : Reader Value Reason) :
    Reader Value Reason :=
  if reader.stage = .counted ∨ reader.stage = .started then reader
  else reader.decide (.answer exit)

/-- What a reader that leaves returns. -/
def ending (reader : Reader Value Reason) : Ending Value Reason :=
  if reader.interrupted then .interrupted
  else reader.verdict.getD .interrupted

end Reader

namespace Read

def init : Read Value Reason where
  closed := none
  aborted := none
  outcome := none
  readers := 0
  ended := false
  started := false
  running := false
  owned := false
  ending := 0
  joins := []
  notes := []

def note (read : Read Value Reason) (note : Note Value Reason) :
    Read Value Reason :=
  { read with notes := read.notes ++ [note] }

def setReader (read : Read Value Reason) (index : ℕ)
    (reader : Reader Value Reason) : Read Value Reason :=
  { read with joins := read.joins.set index reader }

/-- `end` -/
def endRead (read : Read Value Reason) (succeeded : Bool) : Read Value Reason :=
  if read.ended then read
  else { read with ended := true }.note (.onEnd succeeded)

/-- An abort of `controller`: its signal aborts once. -/
def abortSignal (read : Read Value Reason) (reason : Option Reason) :
    Read Value Reason :=
  if read.aborted.isSome then read
  else { read with aborted := some reason }.note (.aborts reason)

/-- `cancel`.  The listeners of the signal run before it calls `end`. -/
def cancel (read : Read Value Reason) (reason : Option Reason) :
    Read Value Reason :=
  if read.ended then read
  else { read.abortSignal reason with ending := read.ending + 1 }

/-- The rest of `cancel`. -/
def endCancelled (read : Read Value Reason) : Read Value Reason :=
  { read with ending := read.ending - 1 }.endRead false

/-- The outcome is recorded once, and heard by all who await it. -/
def complete (read : Read Value Reason) (exit : Exit Value Reason) :
    Read Value Reason :=
  if read.outcome.isSome then read
  else { read with
    outcome := some exit
    joins := read.joins.map (Reader.hear exit) }.note (.settles exit)

/-- `settle` -/
def settle (read : Read Value Reason) (exit : Exit Value Reason) :
    Read Value Reason :=
  ({ read with owned := false }.endRead exit.isSuccess).complete exit

/-- `start`.  Nobody listens to the signal of a read that was never forked. -/
def start (read : Read Value Reason) : Read Value Reason :=
  if read.started then read
  else
    match read.closed with
    | some reason =>
        let cancelled := { read with started := true }.cancel (some reason)
        let ended := if read.ended then cancelled else cancelled.endCancelled
        ended.settle (.failure reason)
    | none => { read with started := true, owned := true, running := true }

/-- The request ended: its finalizers run. -/
def close (read : Read Value Reason) (reason : Reason) : Read Value Reason :=
  let closed := { read with closed := some reason, owned := false }
  if read.owned then closed.cancel (some reason) else closed

/-- `onAbort`, of the reader at an index. -/
def onAbort (read : Read Value Reason) (index : ℕ)
    (reader : Reader Value Reason) (reason : Reason) : Read Value Reason :=
  let unheard := { reader with
    signal := some (some reason)
    stage := .unheard }
  if read.readers > 1 then read.setReader index (unheard.decide (.left reason))
  else (read.setReader index unheard).cancel (some reason)

/-- `leave`, of the reader at an index. -/
def leave (read : Read Value Reason) (index : ℕ)
    (reader : Reader Value Reason) : Read Value Reason :=
  let left := { read with readers := read.readers - 1 }.setReader index
    { reader with
      waiting := false
      result := some reader.ending }
  let cancelled :=
    if left.readers = 0 then left.cancel reader.signal.join else left
  cancelled.note (.returns index reader.ending)

/-- `join`, counted at once. -/
def join (read : Read Value Reason) (signal : Option (Option Reason)) :
    Read Value Reason :=
  { read with
    readers := read.readers + 1
    joins := read.joins ++ [{
      signal := signal
      stage := .counted
      verdict := none
      interrupted := false
      waiting := true
      result := none }] }

/-- A step of one reader, which is still counted. -/
def readerStep (read : Read Value Reason) (index : ℕ)
    (reader : Reader Value Reason) :
    Event Value Reason → Option (Read Value Reason)
  | .start _ =>
      if reader.stage = .counted ∧ !reader.interrupted then
        some (read.start.setReader index { reader with stage := .started })
      else none
  | .await _ =>
      if reader.stage = .started ∧ !reader.interrupted then
        let awaiting := { reader with stage := .awaiting }
        some (read.setReader index (match read.outcome with
          | some exit => awaiting.hear exit
          | none => awaiting))
      else none
  | .listen _ =>
      match reader.signal with
      | none => none
      | some aborted =>
          if reader.stage = .awaiting ∧ reader.undecided then
            match aborted with
            | some reason => some (read.onAbort index reader reason)
            | none => some (read.setReader index
                { reader with stage := .listening })
          else none
  | .abort _ reason =>
      match reader.signal with
      | some none =>
          if reader.stage = .listening then
            some (read.onAbort index reader reason)
          else some (read.setReader index
            { reader with signal := some (some reason) })
      | some (some _) | none => none
  | .unlisten _ =>
      if reader.stage = .listening ∧ !reader.undecided then
        some (read.setReader index { reader with stage := .unheard })
      else none
  | .interrupt _ =>
      some (read.setReader index { reader with interrupted := true })
  | .leave _ =>
      if reader.stage ≠ .listening ∧ !reader.undecided then
        some (read.leave index reader)
      else none
  | .close _ | .join _ | .endCancelled | .settle _ => none

/-- The reader at an index, while it is counted. -/
def reader? (read : Read Value Reason) (index : ℕ) :
    Option (Reader Value Reason) :=
  read.joins[index]?.filter Reader.waiting

def step (read : Read Value Reason) (event : Event Value Reason) :
    Option (Read Value Reason) :=
  match event with
  | .close reason => if read.closed.isNone then some (read.close reason) else none
  | .join signal => some (read.join signal)
  | .endCancelled => if 0 < read.ending then some read.endCancelled else none
  | .settle exit =>
      if read.running then some ({ read with running := false }.settle exit)
      else none
  | .start index | .await index | .listen index | .abort index _
  | .unlisten index | .interrupt index | .leave index =>
      (read.reader? index).bind fun reader => read.readerStep index reader event

end Read

/-- One shared read, under any interleaving. -/
def sharedRead : Machine (Read Value Reason) (Event Value Reason) Empty where
  init read := read = .init
  step read event := (read.step event).map fun later => (later, [])

/-! ## The reads of a request -/

/-- A read, with the map and the key it was put under. -/
structure Load (Key Value Reason : Type) where
  key : Key
  home : ℕ
  read : Read Value Reason

/-- The catalog reads of one request.  `current` is the map the request's entry
of `requestCatalogLoads` holds. -/
structure Loads (Key Value Reason : Type) where
  reads : List (Load Key Value Reason)
  maps : List (OrderedMap Key ℕ)
  current : Option ℕ

namespace Loads

variable {Key : Type}

def init : Loads Key Value Reason where
  reads := []
  maps := []
  current := none

/-- The map of the request, made when there is none. -/
def openMap (loads : Loads Key Value Reason) : Loads Key Value Reason × ℕ :=
  match loads.current with
  | some home => (loads, home)
  | none => ({ loads with
      maps := loads.maps ++ [OrderedMap.empty]
      current := some loads.maps.length }, loads.maps.length)

def map (loads : Loads Key Value Reason) (home : ℕ) : OrderedMap Key ℕ :=
  loads.maps[home]?.getD OrderedMap.empty

variable [DecidableEq Key]

/-- The read under a key of a map, or a new one. -/
def load (loads : Loads Key Value Reason) (home : ℕ) (key : Key) :
    Loads Key Value Reason × ℕ :=
  match (loads.map home).get? key with
  | some index => (loads, index)
  | none => ({ loads with
      reads := loads.reads ++ [{ key := key, home := home, read := .init }]
      maps := loads.maps.set home
        ((loads.map home).set key loads.reads.length) },
      loads.reads.length)

/-- `getTools`, up to its `join`. -/
def getTools (loads : Loads Key Value Reason) (key : Key) :
    Loads Key Value Reason × ℕ :=
  loads.openMap.1.load loads.openMap.2 key

/-- The `onEnd` of a read. -/
def evict (loads : Loads Key Value Reason) (index : ℕ)
    (load : Load Key Value Reason) : Loads Key Value Reason :=
  let map := loads.map load.home
  let kept := if map.get? load.key = some index then map.delete load.key else map
  { loads with
    maps := loads.maps.set load.home kept
    current := if kept.size = 0 then none else loads.current }

/-- A step of one read.  Its `onEnd` runs inside the step. -/
def stepRead (loads : Loads Key Value Reason) (index : ℕ)
    (event : Event Value Reason) : Option (Loads Key Value Reason) :=
  loads.reads[index]?.bind fun load =>
    (load.read.step event).map fun later =>
      let stepped := { loads with
        reads := loads.reads.set index { load with read := later } }
      if later.ended && !load.read.ended then stepped.evict index load
      else stepped

end Loads

inductive LoadEvent (Key Value Reason : Type) where
  | getTools (key : Key)
  | read (index : ℕ) (event : Event Value Reason)

/-- The coalescing of one request's catalog reads. -/
def coalescing {Key : Type} [DecidableEq Key] :
    Machine (Loads Key Value Reason) (LoadEvent Key Value Reason) Empty where
  init loads := loads = .init
  step loads event :=
    match event with
    | .getTools key => some ((loads.getTools key).1, [])
    | .read index event =>
        (loads.stepRead index event).map fun later => (later, [])

end Connecta.SharedRead
