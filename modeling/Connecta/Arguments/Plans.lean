import Mathlib.Data.List.Sort
import Connecta.Http.CanonicalJson

/-!
# Plans

A plan says which values of the arguments are private, whichever alternative of a
schema matches.  `merge` combines what references, siblings and branches say: the
plans a schema compiles to have one form for what they omit, so that equal texts
are equal plans and merging is a union.
-/

namespace Connecta.Arguments

open Connecta.Runtime
open Connecta.Inputs (keyPrecedes)

/-- `Plan`.  An absent field is an empty one: a plan with an empty list is only ever
merged, which leaves the list out. -/
inductive Plan where
  | mk (omitted : Bool) (properties : List (JsString × Plan)) (prefixes : List Plan)
      (items : Option Plan)

namespace Plan

def omitted : Plan → Bool
  | mk omitted _ _ _ => omitted

def properties : Plan → List (JsString × Plan)
  | mk _ properties _ _ => properties

def prefixes : Plan → List Plan
  | mk _ _ prefixes _ => prefixes

def items : Plan → Option Plan
  | mk _ _ _ items => items

end Plan

def PUBLIC : Plan := .mk false [] [] none

def OMIT : Plan := .mk true [] [] none

def sensitive : Plan → Bool
  | .mk false [] [] none => false
  | _ => true

/-- A member that is left out where it is undefined. -/
def optionalMember (key : String) (value : Option Json) : List (JsString × Json) :=
  (value.map fun value => (JsString.ofAscii key, value)).toList

mutual

/-- A plan as the object `JSON.stringify` is given. -/
def planJson : Plan → Json
  | .mk omitted properties prefixes items =>
      .object (optionalMember "omit" (if omitted then some (.bool true) else none) ++
        (optionalMember "properties" (if properties = [] then none
            else some (.object (propertiesJson properties))) ++
          (optionalMember "prefix" (if prefixes = [] then none
              else some (.array (prefixesJson prefixes))) ++
            optionalMember "items" (itemsJson items))))

def propertiesJson : List (JsString × Plan) → List (JsString × Json)
  | [] => []
  | (name, plan) :: rest => (name, planJson plan) :: propertiesJson rest

def prefixesJson : List Plan → List Json
  | [] => []
  | plan :: rest => planJson plan :: prefixesJson rest

def itemsJson : Option Plan → Option Json
  | none => none
  | some plan => some (planJson plan)

end

def equal (left right : Plan) : Bool :=
  (planJson left).stringify = (planJson right).stringify

def item (plan : Plan) (index : ℕ) : Plan :=
  (plan.prefixes[index]?).getD (plan.items.getD PUBLIC)

/-- The plan of a property, which is its own. -/
def field (properties : List (JsString × Plan)) (name : JsString) : Plan :=
  ((properties.find? fun entry => entry.1 = name).map Prod.snd).getD PUBLIC

mutual

/-- The levels of plans below a plan. -/
def height : Plan → ℕ
  | .mk _ properties prefixes items =>
      max (propertiesHeight properties) (max (prefixesHeight prefixes) (itemsHeight items))

def propertiesHeight : List (JsString × Plan) → ℕ
  | [] => 0
  | (_, plan) :: rest => max (height plan + 1) (propertiesHeight rest)

def prefixesHeight : List Plan → ℕ
  | [] => 0
  | plan :: rest => max (height plan + 1) (prefixesHeight rest)

def itemsHeight : Option Plan → ℕ
  | none => 0
  | some plan => height plan + 1

end

def mergeItemsWith (merge : Plan → Plan → Plan) (left right : Plan) : Plan :=
  if !sensitive left then right
  else if !sensitive right then left
  else merge left right

/-- `[...names].sort()` as the keys of an object: array indices come first. -/
def sortedNames (left right : List (JsString × Plan)) : List JsString :=
  (left.map Prod.fst ++ right.map Prod.fst).dedup.insertionSort
    fun one two => keyPrecedes one two = true

/-- The rounds of `merge`, one for each level below the plans. -/
def mergeRounds : ℕ → Plan → Plan → Plan
  | 0, left, right => if left.omitted || right.omitted then OMIT else PUBLIC
  | rounds + 1, left, right =>
      if left.omitted || right.omitted then OMIT
      else
        let properties := (sortedNames left.properties right.properties).map fun name =>
          (name, mergeRounds rounds (field left.properties name) (field right.properties name))
        let items := mergeItemsWith (mergeRounds rounds) (left.items.getD PUBLIC)
          (right.items.getD PUBLIC)
        let prefixes := (List.range (max left.prefixes.length right.prefixes.length)).map
          fun index => mergeItemsWith (mergeRounds rounds) (item left index) (item right index)
        .mk false properties (prefixes.rdropWhile fun plan => equal plan items)
          (if sensitive items then some items else none)

def merge (left right : Plan) : Plan :=
  mergeRounds (max (height left) (height right)) left right

def mergeItems (left right : Plan) : Plan := mergeItemsWith merge left right

end Connecta.Arguments
