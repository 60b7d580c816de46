import Mathlib.Data.List.GetD
import Connecta.Foundation.Bisection
import Connecta.Runtime.Percent

/-!
# Layers of JSON escapes

A layer of JSON string escapes is decoded twice over in the source: at once from
a text, with a table of where each escape was, and unit by unit from another
view, through a ring of eight units that carry the source span they came from.
`unescape` is what both decode.
-/

namespace Connecta.Secrets

open Connecta.Runtime

/-- A unit of a view and the source span it came from. -/
structure Piece where
  code : CodeUnit
  start : ℕ
  stop : ℕ
  deriving DecidableEq

/-! ## Escapes -/

def backslash : CodeUnit := ascii '\\'

def shortEscape (code : CodeUnit) : Option CodeUnit :=
  if code = 34 then some 34
  else if code = 47 then some 47
  else if code = 92 then some 92
  else if code = 98 then some 8
  else if code = 102 then some 12
  else if code = 110 then some 10
  else if code = 114 then some 13
  else if code = 116 then some 9
  else none

def hex (code : CodeUnit) : Option ℕ :=
  let lower := code ||| 0x20
  if 0x30 ≤ code ∧ code ≤ 0x39 then some (code.toNat - 0x30)
  else if 0x61 ≤ lower ∧ lower ≤ 0x66 then some (lower.toNat - 0x57)
  else none

/-- The unit of four hex digits, given up at the first that is none. -/
def hexUnit (digits : List CodeUnit) : Option CodeUnit :=
  (digits.foldlM (fun unit digit => (hex digit).map (unit * 16 + ·)) 0).map UInt16.ofNat

/-- The escape a text begins with: the unit it decodes to and its width. -/
def escapeAt : JsString → Option (CodeUnit × ℕ)
  | slash :: code :: rest =>
      if slash = backslash then
        match shortEscape code with
        | some unit => some (unit, 2)
        | none =>
            if code = 0x75 ∧ 4 ≤ rest.length then
              (hexUnit (rest.take 4)).map fun unit => (unit, 6)
            else none
      else none
  | _ => none

/-- A layer decoded from left to right; `skip` units still belong to the escape
before. -/
def unescapeFrom : ℕ → List Piece → List Piece
  | _, [] => []
  | skip + 1, _ :: pieces => unescapeFrom skip pieces
  | 0, piece :: pieces =>
      match escapeAt ((piece :: pieces).map Piece.code) with
      | some (unit, width) =>
          ⟨unit, piece.start, ((piece :: pieces).getD (width - 1) piece).stop⟩ ::
            unescapeFrom (width - 1) pieces
      | none => piece :: unescapeFrom 0 pieces

def unescape (pieces : List Piece) : List Piece := unescapeFrom 0 pieces

/-! ## A layer at once -/

/-- `at`, `from` and `width` of each decoded escape. -/
structure Escape where
  place : ℕ
  origin : ℕ
  width : ℕ
  deriving DecidableEq

structure Layer where
  text : JsString
  escapes : List Escape
  deriving DecidableEq

/-- `text.indexOf("\\", index)` -/
def indexOfBackslash (text : JsString) (index : ℕ) : Option ℕ :=
  ((text.drop index).findIdx? (· = backslash)).map (index + ·)

/-- The unit and the width `unescapeLayer` reads at a backslash. -/
def readEscape (text : JsString) (index : ℕ) : Option (CodeUnit × ℕ) :=
  let code := text.getD (index + 1) 0
  match shortEscape code with
  | some unit => some (unit, 2)
  | none =>
      if code = 0x75 ∧ index + 6 ≤ text.length then
        (hexUnit ((text.drop (index + 2)).take 4)).map fun unit => (unit, 6)
      else none

/-- The variables of `unescapeLayer`'s loop beside `index`. -/
structure Unescaping where
  parts : List JsString
  escapes : List Escape
  cursor : ℕ
  length : ℕ

/-- The loop of `unescapeLayer`, searching from `index`. -/
def unescapeLoop (text : JsString) : ℕ → ℕ → Unescaping → Unescaping
  | 0, _, state => state
  | fuel + 1, index, state =>
      match indexOfBackslash text index with
      | none => state
      | some index =>
          if index + 1 < text.length then
            match readEscape text index with
            | none => unescapeLoop text fuel (index + 1) state
            | some (unit, width) =>
                let length := state.length + (index - state.cursor)
                unescapeLoop text fuel (index + width)
                  { parts := state.parts ++
                      [(text.take index).drop state.cursor, [unit]]
                    escapes := state.escapes ++ [⟨length, index, width⟩]
                    cursor := index + width
                    length := length + 1 }
          else state

def unescapeLayer (text : JsString) : Option Layer :=
  let state := unescapeLoop text text.length 0 ⟨[], [], 0, 0⟩
  if state.escapes = [] then none
  else some ⟨(state.parts ++ [text.drop state.cursor]).flatten, state.escapes⟩

/-- Where a decoded unit came from in the text above, the last unit of its escape
with `last`. -/
def above (layer : Layer) (unit : ℕ) (last : Bool) : ℕ :=
  let low := Bisection.search
    (fun middle => (layer.escapes.getD middle ⟨0, 0, 0⟩).place ≤ unit) layer.escapes.length
  if low = 0 then unit
  else
    let escape := layer.escapes.getD (low - 1) ⟨0, 0, 0⟩
    if escape.place = unit then
      if last then escape.origin + escape.width - 1 else escape.origin
    else escape.origin + escape.width + (unit - escape.place - 1)

/-- `toSource`: through the layers, the last one first. -/
def toSource (layers : List Layer) (unit : ℕ) (last : Bool) : ℕ :=
  layers.foldr (fun layer unit => above layer unit last) unit

/-- Layers decoded one from another, up to `depth`, while one decodes anything. -/
def layersOf : ℕ → JsString → List Layer
  | 0, _ => []
  | depth + 1, text =>
      match unescapeLayer text with
      | none => []
      | some layer => layer :: layersOf depth layer.text

/-- The text of the last of the layers, or the text itself. -/
def decodedText (text : JsString) (layers : List Layer) : JsString :=
  layers.foldl (fun _ layer => layer.text) text

/-! ## A layer unit by unit -/

/-- A view: `next` gives a unit, if one is left, whose span `start` and `stop`
then tell. -/
class Units (σ : Type) where
  next : σ → Option CodeUnit × σ
  start : σ → ℕ
  stop : σ → ℕ

structure Source where
  text : JsString
  start : ℕ
  stop : ℕ

namespace Source

def ofText (text : JsString) : Source := ⟨text, 0, 0⟩

def next (source : Source) : Option CodeUnit × Source :=
  if source.text.length ≤ source.stop then (none, source)
  else (source.text[source.stop]?, ⟨source.text, source.stop, source.stop + 1⟩)

end Source

instance : Units Source := ⟨Source.next, Source.start, Source.stop⟩

/-- `codes`, `starts` and `ends` as one ring of pieces. -/
structure Unescaped (σ : Type) where
  origin : σ
  start : ℕ
  stop : ℕ
  decoded : ℕ
  slashes : ℕ
  ring : ℕ → Piece
  head : ℕ
  size : ℕ

namespace Unescaped

variable {σ : Type} [Units σ]

def ofUnits (origin : σ) : Unescaped σ :=
  ⟨origin, 0, 0, 0, 0, fun _ => ⟨0, 0, 0⟩, 0, 0⟩

/-- The loop of `fill`, with the units still to read. -/
def fillBy : ℕ → Unescaped σ → Bool × Unescaped σ
  | 0, view => (true, view)
  | left + 1, view =>
      match Units.next view.origin with
      | (none, origin) => (false, { view with origin := origin })
      | (some code, origin) =>
          fillBy left
            { view with
              origin := origin
              ring := Function.update view.ring ((view.head + view.size) &&& 7)
                ⟨code, Units.start origin, Units.stop origin⟩
              size := view.size + 1 }

def fill (view : Unescaped σ) (count : ℕ) : Bool × Unescaped σ :=
  view.fillBy (count - view.size)

def piece (view : Unescaped σ) (offset : ℕ) : Piece :=
  view.ring ((view.head + offset) &&& 7)

def take (view : Unescaped σ) (count : ℕ) (code : CodeUnit) :
    Option CodeUnit × Unescaped σ :=
  (some code,
    { view with
      start := (view.ring view.head).start
      stop := (view.piece (count - 1)).stop
      head := (view.head + count) &&& 7
      size := view.size - count
      decoded := if 1 < count then view.decoded + 1 else view.decoded
      slashes := if code = backslash then view.slashes + 1 else view.slashes })

/-- The part of `next` after a backslash and another unit. -/
def nextEscape (view : Unescaped σ) (code : CodeUnit) : Option CodeUnit × Unescaped σ :=
  match shortEscape (view.piece 1).code with
  | some escaped => view.take 2 escaped
  | none =>
      if (view.piece 1).code = 0x75 then
        match view.fill 6 with
        | (false, view) => view.take 1 code
        | (true, view) =>
            match hexUnit ((List.range 4).map fun offset => (view.piece (offset + 2)).code) with
            | some unit => view.take 6 unit
            | none => view.take 1 code
      else view.take 1 code

def next (view : Unescaped σ) : Option CodeUnit × Unescaped σ :=
  match view.fill 1 with
  | (false, view) => (none, view)
  | (true, view) =>
      let code := (view.piece 0).code
      if code = backslash then
        match view.fill 2 with
        | (false, view) => view.take 1 code
        | (true, view) => view.nextEscape code
      else view.take 1 code

instance : Units (Unescaped σ) := ⟨next, Unescaped.start, Unescaped.stop⟩

end Unescaped

/-- `Unescaped` around a view, `depth` times. -/
def Stack (σ : Type) : ℕ → Type
  | 0 => σ
  | depth + 1 => Unescaped (Stack σ depth)

namespace Stack

@[reducible]
def units (σ : Type) [Units σ] : (depth : ℕ) → Units (Stack σ depth)
  | 0 => inferInstanceAs (Units σ)
  | depth + 1 =>
      haveI := units σ depth
      inferInstanceAs (Units (Unescaped (Stack σ depth)))

instance {σ : Type} [Units σ] {depth : ℕ} : Units (Stack σ depth) := units σ depth

def ofUnits {σ : Type} [Units σ] (origin : σ) : (depth : ℕ) → Stack σ depth
  | 0 => origin
  | depth + 1 => Unescaped.ofUnits (ofUnits origin depth)

end Stack

/-- The units `next` gives before the first `-1`, if it comes. -/
def drain {σ : Type} [Units σ] : ℕ → σ → Option (List Piece)
  | 0, _ => none
  | fuel + 1, view =>
      match Units.next view with
      | (none, _) => some []
      | (some code, view) =>
          (drain fuel view).map (⟨code, Units.start view, Units.stop view⟩ :: ·)

end Connecta.Secrets
