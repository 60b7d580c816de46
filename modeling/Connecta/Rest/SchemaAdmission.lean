import Mathlib.Order.FixedPoints
import Connecta.Rest.SchemaNodes

/-!
# What an index admits

A node admits a value where the value fits its shape, which speaks of the nodes below: the
least relation that the shapes close.  Over acyclic nodes the walk of some levels decides it.
-/

namespace Connecta.Rest

open Connecta.Runtime
open Connecta.Arguments (Issue)
open Connecta.Results (ParsedValue)

/-- How a schema is read: which names count as declared and as present though no object has
them, and whether `null` and the empty text are admitted against bounds and enumerations too. -/
structure Reading where
  inherited : List JsString
  unsetsAll : Bool

/-! ## Shapes -/

/-- An enumeration without a value admits none. -/
def SchemaNode.Inhabited (schema : SchemaNode) : Prop := schema.e.any List.isEmpty = false

/-- A number inside the bounds of a node, where it has any. -/
def SchemaNode.InBounds (site : Site) (schema : SchemaNode) (value : ParsedValue) : Prop :=
  (schema.l = none ∧ schema.u = none) ∨
    ∃ numeric, numericValue site (schema.has "integer") value = some numeric ∧
      numeric.isFinite = true ∧ (schema.has "integer" = true → numeric.isSafeInteger = true) ∧
      (∀ least, schema.l = some least → less numeric least.number = false) ∧
      ∀ most, schema.u = some most → less most.number numeric = false

/-- A value that is looked at, in its bounds and neither `null` nor empty. -/
structure Given (site : Site) (schema : SchemaNode) (value : ParsedValue) : Prop where
  inhabited : schema.Inhabited
  bounded : schema.InBounds site value
  set : unset value = false

/-- A node that is read as an object, or else as an array. -/
def SchemaNode.objectLike (schema : SchemaNode) : Bool := schema.p.isSome || schema.has "object"

def SchemaNode.arrayLike (schema : SchemaNode) : Bool := schema.i.isSome || schema.has "array"

/-- The members of an object: each is admitted by the property of its name, or else by the
node of other members, where properties or such a node are declared; no required one is missing. -/
structure MembersFit (reading : Reading) (admits : SchemaNode → ParsedValue → Prop)
    (schema : SchemaNode) (members : List (JsString × ParsedValue)) : Prop where
  child : ∀ member ∈ members, ∀ child,
    childOf reading.inherited schema member.1 = some child → admits child member.2
  other : ∀ member ∈ members, childOf reading.inherited schema member.1 = none →
    ∀ other, schema.m = some other → admits other member.2
  closed : ∀ member ∈ members, childOf reading.inherited schema member.1 = none →
    schema.m = none → schema.p = none
  required : ∀ key ∈ schema.r, missing reading.inherited members key = false

/-- A value has the shape of a node, if the nodes below admit its parts: a branch of a union
admits it, an option of an enumeration is it, its members or its items fit. -/
def Shaped (reading : Reading) (admits : SchemaNode → ParsedValue → Prop) (schema : SchemaNode)
    (value : ParsedValue) : Prop :=
  match schema.a, schema.options value with
  | some branches, _ => (∃ branch ∈ branches, admits branch value) ∨ branches = []
  | none, some options => ∃ option ∈ options, option.takes value = true
  | none, none =>
      if schema.objectLike then
        match value with
        | .object members => MembersFit reading admits schema members
        | _ => schema.t.isEmpty = false ∧ schema.has "object" = false
      else if schema.arrayLike then
        match value with
        | .array elements => ∀ item ∈ elements, ∀ items, schema.i = some items → admits items item
        | _ => False
      else schema.t.isEmpty = true ∨ isRecord value = false ∧ isArray value = false

/-- A value fits a node. -/
inductive Fits (reading : Reading) (site : Site) (admits : SchemaNode → ParsedValue → Prop)
    (schema : SchemaNode) : ParsedValue → Prop where
  | truncated {value : ParsedValue} : schema.x = true → Fits reading site admits schema value
  | nullable : schema.Inhabited → schema.n = true → Fits reading site admits schema .null
  | unset {value : ParsedValue} :
      (reading.unsetsAll = true ∨ schema.Inhabited ∧ schema.l = none ∧ schema.u = none) →
      Rest.unset value = true → Fits reading site admits schema value
  | given {value : ParsedValue} : Given site schema value → Shaped reading admits schema value →
      Fits reading site admits schema value

section Mono

variable {reading : Reading} {site : Site} {admits admits' : SchemaNode → ParsedValue → Prop}
  {schema : SchemaNode} {value : ParsedValue}

theorem MembersFit.mono {members : List (JsString × ParsedValue)}
    (hmono : ∀ child value, admits child value → admits' child value)
    (hfit : MembersFit reading admits schema members) :
    MembersFit reading admits' schema members where
  child member hmember child hchild := hmono _ _ (hfit.child member hmember child hchild)
  other member hmember hnone other hother :=
    hmono _ _ (hfit.other member hmember hnone other hother)
  closed := hfit.closed
  required := hfit.required

theorem Shaped.mono (hmono : ∀ child value, admits child value → admits' child value)
    (hshaped : Shaped reading admits schema value) : Shaped reading admits' schema value := by
  unfold Shaped at hshaped ⊢
  split at hshaped
  · rcases hshaped with ⟨branch, hbranch, hadmits⟩ | hempty
    · exact .inl ⟨branch, hbranch, hmono _ _ hadmits⟩
    · exact .inr hempty
  · exact hshaped
  · split_ifs at hshaped ⊢ with hobject harray
    · cases value with
      | object members => exact hshaped.mono hmono
      | _ => exact hshaped
    · cases value with
      | array elements =>
          exact fun item hitem items hitems => hmono _ _ (hshaped item hitem items hitems)
      | _ => exact hshaped
    · exact hshaped

theorem Fits.mono (hmono : ∀ child value, admits child value → admits' child value)
    (hfits : Fits reading site admits schema value) : Fits reading site admits' schema value := by
  cases hfits with
  | truncated htruncated => exact .truncated htruncated
  | nullable hinhabited hnullable => exact .nullable hinhabited hnullable
  | unset hunset hvalue => exact .unset hunset hvalue
  | given hgiven hshaped => exact .given hgiven (hshaped.mono hmono)

end Mono

/-- What the shapes of nodes make of a relation of nodes and values. -/
def admission (reading : Reading) (nodes : List SchemaNode) (site : Site) :
    (SchemaNode → ParsedValue → Prop) →o (SchemaNode → ParsedValue → Prop) where
  toFun admits node value := Fits reading site admits (deref nodes node) value
  monotone' _ _ hle _ _ hfits := hfits.mono fun child value => hle child value

/-- A node admits a value: each position of the value fits the node it is held against. -/
def Admits (reading : Reading) (nodes : List SchemaNode) (site : Site) :
    SchemaNode → ParsedValue → Prop :=
  (admission reading nodes site).lfp

section Admission

variable {reading : Reading} {nodes : List SchemaNode} {site : Site} {node : SchemaNode}
  {value : ParsedValue}

theorem admits_iff : Admits reading nodes site node value ↔
    Fits reading site (Admits reading nodes site) (deref nodes node) value := by
  have hfixed := (admission reading nodes site).map_lfp
  exact (iff_of_eq (congrFun (congrFun hfixed node) value)).symm

theorem deref_empty : deref nodes {} = {} := rfl

/-- A schema that says nothing admits anything. -/
theorem admits_empty : Admits reading nodes site {} value := by
  rw [admits_iff, deref_empty]
  by_cases hunset : unset value = true
  · exact .unset (.inr ⟨rfl, rfl, rfl⟩) hunset
  · rw [Bool.not_eq_true] at hunset
    have hoptions : SchemaNode.options {} value = none := by
      rw [SchemaNode.options]
      exact ite_self _
    refine .given ⟨rfl, .inl ⟨rfl, rfl⟩, hunset⟩ ?_
    unfold Shaped
    rw [hoptions]
    exact .inl rfl

end Admission

end Connecta.Rest
