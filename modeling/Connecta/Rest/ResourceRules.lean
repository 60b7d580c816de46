import Connecta.Rest.PathLanguage

/-!
# Resource rules

A resource rule applies to every object whose discriminator names it, wherever a body
embeds it: the pass goes through the children of an object first, and an object deeper
than the limit is left alone.  A type that redaction altered selects every rule.
-/

namespace Connecta.ReviewedPaths

open Connecta.Runtime

def MAX_DEPTH : ℕ := 48

/-- When an object is provably unbound. -/
structure GuestCondition where
  bindings : List (JsString × List JsString)
  requires : List (JsString × List JsString) := []

structure ResourceRule where
  paths : List JsString := []
  verbatim : List JsString := []
  guest : Option GuestCondition := none
  withheld : List JsString := []

structure ResourceRules where
  /-- The field that names an object's type. -/
  key : JsString
  partials : List JsString := []
  rules : List (JsString × ResourceRule)

def guestOnly (resource : List (JsString × Value)) (guest : GuestCondition) : Bool :=
  (guest.bindings.all fun (field, allowed) =>
    match get resource field with
    | none => true
    | some .null => true
    | some (.string text) => text = [] || allowed.contains text
    | some _ => false) &&
  guest.requires.all fun (field, allowed) =>
    match get resource field with
    | some (.string text) => allowed.contains text
    | _ => false

/-- Every rule's paths and withheld fields. -/
def anyRule (resources : ResourceRules) : ResourceRule where
  paths := (resources.rules.flatMap fun (_, rule) => rule.paths ++ rule.withheld).eraseDups

/-- What a record's type discriminator selects. -/
def typed (resources : ResourceRules) (marks : Marks) (members : List (JsString × Value)) :
    Option ResourceRule :=
  match get members resources.key with
  | none => if keysAltered marks members then some (anyRule resources) else none
  | some (.string type) =>
      if redactionAltered type then some (anyRule resources)
      else (resources.rules.find? fun rule => rule.1 = type).map Prod.snd
  | some _ => none

/-- What the discriminator of the object an event carries selects. -/
def typedInner (resources : ResourceRules) (marks : Marks)
    (members : List (JsString × Value)) : Option ResourceRule :=
  match get members resources.key with
  | some (.object innerMarks inner) => typed resources innerMarks inner
  | none => if keysAltered marks members then some (anyRule resources) else none
  | some _ => none

section Pass

variable (policy : UrlPolicy) (resources : ResourceRules)

def applyPaths (paths : List JsString) (body : Value) : Option Value :=
  paths.foldlM (applyPath policy) body

/-- The partial copies an event carries beside an object of the rule. -/
def applyPartials (rule : ResourceRule) (children : List (JsString × Value)) :
    Option (List (JsString × Value)) :=
  resources.partials.foldlM (fun (out : List (JsString × Value)) part =>
    match get out part with
    | some (.object marks members) => do
        let copy ← applyPaths policy (rule.paths ++ rule.withheld) (.object marks members)
        return out.map fun member => if member.1 = part then (part, copy) else member
    | _ => some out) children

/-- What follows the paths of a rule: the withheld ones of what is no guest's, or the
fields that come back verbatim. -/
def finishRule (rule : ResourceRule) (out : Value) : Option Value :=
  let members := match out with
    | .object _ members => members
    | _ => []
  if rule.guest.any (fun guest => !guestOnly members guest) then
    applyPaths policy rule.withheld out
  else if rule.verbatim = [] then some out
  else match out with
  | .object marks members => some (.object { marks with verbatim := some rule.verbatim } members)
  -- A weak map takes objects only.
  | _ => none

def applyRule (rule : ResourceRule) (out : Value) : Option Value := do
  let reviewed ← applyPaths policy rule.paths out
  finishRule policy rule reviewed

/-- The rules of an object, whose children the pass went through. -/
def applyRules (marks : Marks) (members children : List (JsString × Value)) :
    Option Value := do
  let out ← (typedInner resources marks members).elim (some children) fun rule =>
    applyPartials policy resources rule children
  (typed resources marks members).elim (some (.object {} out)) fun rule =>
    applyRule policy rule (.object {} out)

mutual

/-- `resourcePass`, absent where it throws. -/
def resourcePass : Value → ℕ → Option Value
  | .array items, depth =>
      if MAX_DEPTH < depth then some (.array items)
      else (passItems items (depth + 1)).map .array
  | .object marks members, depth =>
      if MAX_DEPTH < depth then some (.object marks members)
      else (passMembers members (depth + 1)).bind (applyRules policy resources marks members)
  | .null, _ => some .null
  | .bool value, _ => some (.bool value)
  | .number lexeme, _ => some (.number lexeme)
  | .string text, _ => some (.string text)

def passItems : List Value → ℕ → Option (List Value)
  | [], _ => some []
  | first :: others, depth => do
      let first ← resourcePass first depth
      let others ← passItems others depth
      return first :: others

def passMembers : List (JsString × Value) → ℕ → Option (List (JsString × Value))
  | [], _ => some []
  | (key, value) :: others, depth => do
      let value ← resourcePass value depth
      let others ← passMembers others depth
      return (key, value) :: others

end

end Pass

/-! ## Every object at every depth -/

section Runs

variable {policy : UrlPolicy} {resources : ResourceRules}

end Runs

/-! ## The whole of it -/

/-- What a path of mode `redact` is to do with a body. -/
def Redacted (policy : UrlPolicy) (raw : JsString) (body : Value) : Prop :=
  ∃ result, applyPath policy body raw = some result ∧
    Redacts Predicate.test (atEnd policy .redact) (parsePath raw).segments body result ∧
      applyPath policy result raw = some result

end Connecta.ReviewedPaths
