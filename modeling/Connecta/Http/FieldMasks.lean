import Connecta.Runtime.Percent

/-!
# Field masks

A field mask lists selectors: a path of names, and below it, in parentheses, another
list.  Its derivation is a tree, which says what fields of a response the mask keeps.
-/

namespace Connecta.Http

open Connecta.Runtime
open Connecta.Runtime.JsString (ofAscii)

/-! ## The grammar -/

/-- `[A-Za-z_]` -/
def identifierStart (unit : CodeUnit) : Bool :=
  (ascii 'A' ≤ unit && unit ≤ ascii 'Z') || (ascii 'a' ≤ unit && unit ≤ ascii 'z') ||
    unit = ascii '_'

/-- `[A-Za-z0-9_]` -/
def identifierPart (unit : CodeUnit) : Bool :=
  identifierStart unit || (ascii '0' ≤ unit && unit ≤ ascii '9')

def Identifier : JsString → Prop
  | [] => False
  | unit :: rest => identifierStart unit = true ∧ ∀ part ∈ rest, identifierPart part = true

/-- An identifier, or `*`. -/
abbrev FieldName := { text : JsString // Identifier text ∨ text = ofAscii "*" }

mutual

/-- `item (',' item)*` -/
inductive Selectors where
  | one (item : Selector)
  | more (item : Selector) (rest : Selectors)

/-- `name ('/' name)* ['(' list ')']` -/
inductive Selector where
  | field (name : FieldName)
  | nested (name : FieldName) (inner : Selectors)
  | child (name : FieldName) (rest : Selector)

end

mutual

def Selectors.tokens : Selectors → List JsString
  | .one item => item.tokens
  | .more item rest => item.tokens ++ ofAscii "," :: rest.tokens

def Selector.tokens : Selector → List JsString
  | .field name => [name.1]
  | .nested name inner => name.1 :: ofAscii "(" :: (inner.tokens ++ [ofAscii ")"])
  | .child name rest => name.1 :: ofAscii "/" :: rest.tokens

end

/-- The mask a derivation yields. -/
def Selectors.text (selectors : Selectors) : JsString := selectors.tokens.flatten

/-- A field a name stands for. -/
def FieldName.Matches (name : FieldName) (field : JsString) : Prop :=
  name.1 = ofAscii "*" ∨ name.1 = field

mutual

/-- The fields that a mask keeps, each by its path in the response. -/
def Selectors.Selects : Selectors → List JsString → Prop
  | .one item, path => item.Selects path
  | .more item rest, path => item.Selects path ∨ rest.Selects path

def Selector.Selects : Selector → List JsString → Prop
  | _, [] => False
  | .field name, field :: _ => name.Matches field
  | .nested name inner, field :: below => name.Matches field ∧ inner.Selects below
  | .child name rest, field :: below => name.Matches field ∧ rest.Selects below

end

/-- The selectors outside every parenthesis. -/
def Selectors.items : Selectors → List Selector
  | .one item => [item]
  | .more item rest => item :: rest.items

/-- A list with one more selector at its end. -/
def Selectors.append (last : Selector) : Selectors → Selectors
  | .one item => .more item (.one last)
  | .more item rest => .more item (rest.append last)

theorem Selectors.items_append (last : Selector) (selectors : Selectors) :
    (selectors.append last).items = selectors.items ++ [last] := by
  cases selectors with
  | one item => rfl
  | more item rest => exact congrArg (item :: ·) (items_append last rest)

theorem Selectors.tokens_append (last : Selector) (selectors : Selectors) :
    (selectors.append last).tokens = selectors.tokens ++ ofAscii "," :: last.tokens := by
  cases selectors with
  | one item => rw [append, tokens, tokens, tokens]
  | more item rest =>
      rw [append, tokens, tokens, tokens_append last rest, List.append_assoc]
      rfl

theorem Selectors.selects_append (last : Selector) (selectors : Selectors)
    (path : List JsString) :
    (selectors.append last).Selects path ↔ selectors.Selects path ∨ last.Selects path := by
  cases selectors with
  | one item => rw [append, Selects, Selects, Selects]
  | more item rest => rw [append, Selects, Selects, selects_append last rest, or_assoc]

end Connecta.Http
