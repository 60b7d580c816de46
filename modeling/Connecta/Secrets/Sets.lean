import Mathlib
import Connecta.Foundation.OrderedMap
import Connecta.Foundation.Propagation
import Connecta.Foundation.Transition
import Connecta.Secrets.WireForms

/-!
# Secret sets that include one another

A `SentSecrets` set maps each registered form to its strongest kind and least
frame.  Sets that include it receive every later change, so sets live in a heap
and a store visits a graph, possibly with cycles.  A submitted form that does
not fit is not stored; the set then remembers only how short it was.
-/

namespace Connecta.Secrets

open Connecta.Foundation
open Connecta.Runtime
open Connecta.Transition

def maxPrivateFormChars : ℕ := 524288

/-- Kind and frame of a held form, ordered by how much they make match: a kind
further up and a frame further down.  The bottom is a form not held. -/
abbrev Strength := WithBot (Kind × Extentᵒᵈ)

def strength (kind : Kind) (frame : Extent) : Strength :=
  ((kind, OrderDual.toDual frame) : Kind × Extentᵒᵈ)

namespace Registration

def strength (registration : Registration) : Strength :=
  Secrets.strength registration.kind registration.frame

end Registration

/-- One set.  Its cached views are rebuilt from these fields. -/
structure SentSecrets where
  revision : ℕ := 0
  /-- Normalized form to its strongest kind. -/
  forms : OrderedMap JsString Kind := .empty
  /-- Absent is none. -/
  frames : OrderedMap JsString Extent := .empty
  recipients : List ℕ := []
  privateChars : ℕ := 0
  widestForm : ℕ := 0
  smallForms : Bool := false
  unicodeForms : Bool := false
  /-- The shortest form left unregistered. -/
  unmatched : Extent := ⊤

namespace SentSecrets

def frameOf (set : SentSecrets) (form : JsString) : Extent :=
  (set.frames.get? form).getD 0

/-- What the set holds of a form. -/
def held (set : SentSecrets) (form : JsString) : Strength :=
  match set.forms.get? form with
  | some kind => strength kind (set.frameOf form)
  | none => ⊥

/-- `priorFrame` of `store` -/
def priorFrame (set : SentSecrets) (form : JsString) : Extent :=
  if (set.forms.get? form).isSome then set.frameOf form else ⊤

/-- Whether storing the registration would change nothing. -/
def settled (set : SentSecrets) (registration : Registration) : Bool :=
  (set.forms.get? registration.form).any (registration.kind ≤ ·) &&
    min registration.frame (set.priorFrame registration.form) =
      set.priorFrame registration.form

/-- A form of a submitted value counts against the set's room once. -/
def counted (set : SentSecrets) (registration : Registration) : Bool :=
  registration.kind ≠ .credential && (set.forms.get? registration.form).isNone

def overflows (set : SentSecrets) (registration : Registration) : Bool :=
  set.counted registration &&
    maxPrivateFormChars < set.privateChars + registration.form.length

def unicode (form : JsString) : Bool := form.any fun unit => 0x80 ≤ unit

/-- The set with the registration stored. -/
def hold (set : SentSecrets) (registration : Registration) : SentSecrets :=
  let form := registration.form
  let nextFrame := min registration.frame (set.priorFrame form)
  { set with
    privateChars := if set.counted registration
      then set.privateChars + form.length else set.privateChars
    forms := set.forms.set form (match set.forms.get? form with
      | some prior => max prior registration.kind
      | none => registration.kind)
    frames := if nextFrame = 0 then set.frames.delete form
      else set.frames.set form nextFrame
    widestForm := max set.widestForm form.length
    smallForms := set.smallForms || registration.kind < .personal
    unicodeForms := set.unicodeForms || unicode form
    revision := set.revision + 1 }

end SentSecrets

/-! ## The heap of sets -/

structure Heap where
  size : ℕ := 0
  sets : ℕ → SentSecrets := fun _ => {}

namespace Heap

def update (heap : Heap) (id : ℕ) (set : SentSecrets) : Heap :=
  { heap with sets := Function.update heap.sets id set }

def recipients (heap : Heap) (id : ℕ) : List ℕ := (heap.sets id).recipients

/-- `unregistered` at one set. -/
def mark (length : Extent) (heap : Heap) (id : ℕ) : Option (Heap × Bool) :=
  let set := heap.sets id
  if set.unmatched ≤ length then some (heap, false)
  else some (heap.update id { set with
    unmatched := length, revision := set.revision + 1 }, true)

/-- Passing `unregistered` on to every recipient. -/
def marking (length : Extent) : Propagation Heap ℕ where
  targets := recipients
  visit := mark length

/-- Calls nest at most once through each set, and once more to find it done. -/
def unregistered (heap : Heap) (id : ℕ) (length : Extent) : Option Heap :=
  (marking length).spread (heap.size + 1) heap id

/-- `store` at one set. -/
def put (registration : Registration) (heap : Heap) (id : ℕ) :
    Option (Heap × Bool) :=
  let set := heap.sets id
  if set.settled registration then some (heap, false)
  else if set.overflows registration then
    (heap.unregistered id registration.form.length).map fun later =>
      (later, false)
  else some (heap.update id (set.hold registration), true)

/-- Passing `store` on to every recipient. -/
def storing (registration : Registration) : Propagation Heap ℕ where
  targets := recipients
  visit := put registration

def store (heap : Heap) (id : ℕ) (registration : Registration) : Option Heap :=
  (storing registration).spread (heap.size + 1) heap id

def storeAll (heap : Heap) (id : ℕ) (registrations : List Registration) :
    Option Heap :=
  registrations.foldlM (fun heap => heap.store id) heap

def register (heap : Heap) (id : ℕ) (value : JsString) (kind : Kind)
    (frame : Extent) : Option Heap :=
  heap.storeAll id (registrations value kind frame)

def add (heap : Heap) (id : ℕ) (value : JsString) (frame : Extent) : Option Heap :=
  heap.storeAll id (credential value frame)

/-- One submitted value of `arguments`. -/
def submit (heap : Heap) (id : ℕ) (value : JsString) : Option Heap :=
  if value = [] then some heap
  else if maxPrivateFormChars < value.length then
    heap.unregistered id value.length
  else heap.register id value (submittedKind value) 0

/-- The registration under which a set holds a form. -/
def registrationOf (set : SentSecrets) (entry : JsString × Kind) :
    Registration :=
  ⟨entry.1, entry.2, set.frameOf entry.1⟩

/-- The source with one more recipient. -/
def link (heap : Heap) (recipient source : ℕ) : Heap :=
  let set := heap.sets source
  heap.update source { set with
    recipients := if recipient ∈ set.recipients then set.recipients
      else set.recipients ++ [recipient] }

/-- The source's forms are read before the loop; no store of the loop changes
them, see `include_forms`. -/
def «include» (heap : Heap) (recipient source : ℕ) : Option Heap :=
  if source = recipient then some heap
  else
    let set := heap.sets source
    do
      let stored ← (heap.link recipient source).storeAll recipient
        (set.forms.entries.map (registrationOf set))
      stored.unregistered recipient (stored.sets source).unmatched

def create (heap : Heap) : Heap :=
  { heap.update heap.size {} with size := heap.size + 1 }

end Heap

/-! ## Events -/

inductive Event where
  | create
  | store (id : ℕ) (registration : Registration)
  | register (id : ℕ) (value : JsString) (kind : Kind) (frame : Extent)
  | add (id : ℕ) (value : JsString) (frame : Extent)
  | submit (id : ℕ) (value : JsString)
  /-- Arguments too many or too deep to read leave every string unmatched. -/
  | unregistered (id : ℕ) (length : Extent)
  | include (recipient source : ℕ)

/-- The sets an event names exist. -/
def Event.valid (heap : Heap) : Event → Bool
  | .create => true
  | .store id _ | .register id _ _ _ | .add id _ _ | .submit id _
  | .unregistered id _ => id < heap.size
  | .include recipient source => recipient < heap.size && source < heap.size

/-- What a call does to the heap; absent where its recursion did not end. -/
def call (heap : Heap) : Event → Option Heap
  | .create => some heap.create
  | .store id registration => heap.store id registration
  | .register id value kind frame => heap.register id value kind frame
  | .add id value frame => heap.add id value frame
  | .submit id value => heap.submit id value
  | .unregistered id length => heap.unregistered id length
  | .include recipient source => heap.include recipient source

/-- The heap as a machine; it reports nothing beyond its state. -/
def machine : Machine Heap Event Empty where
  init heap := heap = {}
  step heap event :=
    if event.valid heap then (call heap event).map fun later => (later, [])
    else none

end Connecta.Secrets
