import Mathlib.Data.UInt
import Connecta.Foundation.ProbeTable
import Connecta.Foundation.RollingHash
import Connecta.Secrets.Spans
import Connecta.Secrets.WireForms

/-!
# Fragments

Every run of eight units of every form, as two polynomial hashes modulo `2 ^ 32`
in an open-addressed table that doubles before it is more than half full.  A
filter over the first hash rules most runs out without a probe.  A set with more
runs than the table may hold gives the index up.
-/

namespace Connecta.Secrets

open Connecta.Runtime

def fragmentLength : ℕ := minSecretLength

def maxFragments : ℕ := 524288

def hashBase : UInt32 := 0x01000193

def secondBase : UInt32 := 0x5BD1E995

/-- The weight of a window's first unit, `FIRST_TOP` or `SECOND_TOP`. -/
def topWeight (base : UInt32) : UInt32 := base ^ (fragmentLength - 1)

/-- The weight of a window's second unit, `FIRST_NEXT` or `SECOND_NEXT`. -/
def nextWeight (base : UInt32) : UInt32 := base ^ (fragmentLength - 2)

def hexLetter (code : CodeUnit) : Bool :=
  let lower := code ||| 0x20
  0x61 ≤ lower && lower ≤ 0x66

structure Fragments where
  complete : Bool
  size : ℕ
  /-- The length of `firsts` and of `seconds`, zero at first. -/
  length : ℕ
  firsts : ℕ → UInt32
  seconds : ℕ → UInt32
  shift : ℕ
  filter : ℕ → UInt32

namespace Fragments

def empty : Fragments :=
  ⟨true, 0, 1024, fun _ => 0, fun _ => 0, 22, fun _ => 0⟩

def mixed (first : UInt32) : UInt32 := first * 0x9E3779B1

def filterWord (first : UInt32) : ℕ := (mixed first >>> 21).toNat

def filterBit (first : UInt32) : UInt32 :=
  (1 : UInt32) <<< ((mixed first >>> 16) &&& 31)

/-- A free slot holds no second hash, so none is stored as zero. -/
def keyOf (second : UInt32) : UInt32 := if second = 0 then 1 else second

def home (index : Fragments) (first : UInt32) : ℕ :=
  (mixed first >>> UInt32.ofNat index.shift).toNat

/-- The slot the loops of `insert` and `has` end at, if they do. -/
def probe (index : Fragments) (first key : UInt32) : ℕ → ℕ → Option ℕ
  | 0, _ => none
  | fuel + 1, slot =>
      if index.seconds slot = 0 then some slot
      else if index.firsts slot = first ∧ index.seconds slot = key then some slot
      else index.probe first key fuel ((slot + 1) &&& (index.length - 1))

def marked (index : Fragments) (first : UInt32) : Fragments :=
  { index with
    filter := Function.update index.filter (filterWord first)
      (index.filter (filterWord first) ||| filterBit first) }

def placed (index : Fragments) (slot : ℕ) (first key : UInt32) : Fragments :=
  { index with
    firsts := Function.update index.firsts slot first
    seconds := Function.update index.seconds slot key
    size := index.size + 1 }

def insertWith (grow : Fragments → Option Fragments) (index : Fragments)
    (first second : UInt32) : Option Fragments :=
  let index := index.marked first
  let key := keyOf second
  (index.probe first key index.length (index.home first)).bind fun slot =>
    if index.seconds slot = 0 then
      let index := index.placed slot first key
      if index.length < index.size * 2 ∧ index.size ≤ maxFragments then grow index
      else some index
    else some index

def doubled (index : Fragments) : Fragments :=
  { index with
    length := index.length * 2
    firsts := fun _ => 0
    seconds := fun _ => 0
    shift := index.shift - 1
    size := 0 }

/-- `grow`, which may be entered again by its own insertions as long as a shift
is left to take. -/
def growFrom : ℕ → Fragments → Option Fragments
  | 0, _ => none
  | shift + 1, index =>
      (List.range index.length).foldlM (fun grown slot =>
        if index.seconds slot = 0 then some grown
        else grown.insertWith (growFrom shift) (index.firsts slot)
          (index.seconds slot)) index.doubled

def insert (index : Fragments) (first second : UInt32) : Option Fragments :=
  index.insertWith (fun index => growFrom index.shift index) first second

def insertAll (index : Fragments) (hashes : List (UInt32 × UInt32)) :
    Option Fragments :=
  hashes.foldlM (fun index hash => index.insert hash.1 hash.2) index

def has (index : Fragments) (first second : UInt32) : Option Bool :=
  (index.probe first (keyOf second) index.length (index.home first)).map fun slot =>
    index.seconds slot ≠ 0

/-! ## The constructor -/

/-- What either case of a hex letter adds to a unit. -/
def caseShifts (unit : CodeUnit) : List UInt32 :=
  if hexLetter unit then [0, (unit ^^^ 0x20).toUInt32 - unit.toUInt32] else [0]

def runHashes (first second : UInt32) (lead next : CodeUnit) :
    List (UInt32 × UInt32) :=
  (caseShifts lead).flatMap fun a => (caseShifts next).map fun b =>
    (first + a * topWeight hashBase + b * nextWeight hashBase,
      second + a * topWeight secondBase + b * nextWeight secondBase)

def abandoned (index : Fragments) : Fragments :=
  { index with
    complete := false, size := 0, length := 1
    firsts := fun _ => 0, seconds := fun _ => 0 }

def rolled (base hash : UInt32) (old code : CodeUnit) : UInt32 :=
  (hash - old.toUInt32 * topWeight base) * base + code.toUInt32

/-- The loop over one form, with the units left to take. -/
def addForm (form : JsString) (frame : Extent) :
    ℕ → ℕ → UInt32 → UInt32 → Fragments → Option Fragments
  | 0, _, _, _, fragments => some fragments
  | left + 1, index, first, second, fragments =>
      let old := if fragmentLength ≤ index then form.getD (index - fragmentLength) 0
        else 0
      let code := form.getD index 0
      let first := rolled hashBase first old code
      let second := rolled secondBase second old code
      let start := index + 1 - fragmentLength
      if index + 1 < fragmentLength ∨ (start : Extent) < frame then
        addForm form frame left (index + 1) first second fragments
      else
        (fragments.insertAll (runHashes first second (form.getD start 0)
          (form.getD (start + 1) 0))).bind fun fragments =>
            if maxFragments < fragments.size then some fragments.abandoned
            else addForm form frame left (index + 1) first second fragments

/-- An abandoned index takes no more forms. -/
def build (forms : List (JsString × Extent)) : Option Fragments :=
  forms.foldlM (fun index entry =>
    if index.complete then addForm entry.1 entry.2 entry.1.length 0 0 0 index
    else some index) empty

/-! ## Scanning -/

/-- A scanned unit, folded inside a percent escape, and what is left of one. -/
def percentStep (percent : ℕ) (unit : CodeUnit) : CodeUnit × ℕ :=
  if unit = ascii '%' then (unit, 2)
  else match percent with
    | 0 => (unit, 0)
    | left + 1 => (foldUnit unit, left)

/-- The last eight units and where the next one goes. -/
structure Ring where
  codes : ℕ → CodeUnit
  slot : ℕ

namespace Ring

def push (ring : Ring) (code : CodeUnit) : Ring :=
  ⟨Function.update ring.codes ring.slot code,
    (ring.slot + 1) &&& (fragmentLength - 1)⟩

/-- Oldest first, from the next slot round. -/
def units (ring : Ring) : List CodeUnit :=
  (List.range fragmentLength).map fun unit =>
    ring.codes ((ring.slot + unit) &&& (fragmentLength - 1))

end Ring

def windowHash (base : UInt32) (units : List CodeUnit) : UInt32 :=
  units.foldl (fun hash unit => hash * base + unit.toUInt32) 0

/-- The loop of `scan` over the units left, `count` of them already taken. -/
def scanFrom (index : Fragments) (start : ℕ) (marks : Option (List ℕ)) :
    ℕ → ℕ → Ring → UInt32 → List Span → JsString → Option (List Span)
  | _, _, _, _, spans, [] => some spans
  | count, percent, ring, first, spans, unit :: rest =>
      let (code, percent) := percentStep percent unit
      let first := rolled hashBase first (ring.codes ring.slot) code
      let ring := ring.push code
      if index.filter (filterWord first) &&& filterBit first = 0 ∨
          count + 1 < fragmentLength then
        index.scanFrom start marks (count + 1) percent ring first spans rest
      else
        (index.has first (windowHash secondBase ring.units)).bind fun found =>
          let stop := start + count + 1
          index.scanFrom start marks (count + 1) percent ring first
            (if found then Secrets.push spans (stop - fragmentLength) stop marks
              else spans) rest

/-- The spans of one scan of the text from `start` to `stop`. -/
def scan (index : Fragments) (text : JsString) (start stop : ℕ)
    (marks : Option (List ℕ)) : Option (List Span) :=
  if index.size = 0 then some []
  else index.scanFrom start marks 0 0 ⟨fun _ => 0, 0⟩ 0 []
    ((text.take stop).drop start)

end Fragments

end Connecta.Secrets
