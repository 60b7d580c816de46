import Connecta.Catalog.SchemaShapes
import Connecta.Catalog.SchemaSpending

/-!
# What collecting keys costs

The visits and the texts of the walk that collects the keys of a schema, told from the schema
alone where the walk passes no union; and the schemas over which it walks.
-/

namespace Connecta.Catalog

open Connecta.Foundation
open Connecta.Foundation.Faulty
open Connecta.Runtime
open Connecta.Runtime.JsString (ofAscii)
open SchemaWalk

/-! ## Schemas -/

/-- A JSON Schema, as far as its keys go: `true` or `false`, or an object whose `properties` and
definitions are objects, with schemas in `allOf` and in its definitions. -/
inductive IsSchema : Json → Prop where
  | bool (value : Bool) : IsSchema (.bool value)
  | object {members : List (JsString × Json)}
      (hproperties : ∀ value, keyword (.object members) "properties" = some value →
        ∃ properties, value = .object properties ∧ (properties.map Prod.fst).Nodup)
      (hallOf : ∀ elements, elementsOf (keyword (.object members) "allOf") = some elements →
        ∀ element ∈ elements, IsSchema element)
      (htables : ∀ name ∈ ["definitions", "$defs"], ∀ value,
        keyword (.object members) name = some value → ∃ table, value = .object table)
      (hdefinitions : ∀ name ∈ ["definitions", "$defs"], ∀ table,
        keyword (.object members) name = some (.object table) →
          ∀ entry ∈ table, IsSchema entry.2) : IsSchema (.object members)

theorem lookup_filter {Value : Type} {key : JsString} {keeps : JsString × Value → Bool}
    (hkeeps : ∀ value, keeps (key, value) = true) (members : List (JsString × Value)) :
    (members.filter keeps).lookup key = members.lookup key := by
  induction members with
  | nil => rfl
  | cons member rest ih =>
      obtain ⟨name, value⟩ := member
      by_cases hname : key = name
      · rw [← hname, List.filter_cons_of_pos (hkeeps value), List.lookup_cons_self,
          List.lookup_cons_self]
      · have hskip (others : List (JsString × Value)) :
            ((name, value) :: others).lookup key = others.lookup key := by
          rw [List.lookup_cons, beq_false_of_ne hname]
        rw [hskip, List.filter_cons]
        split_ifs
        · rw [hskip, ih]
        · exact ih

theorem keyword_without {members : List (JsString × Json)} {names : List String} {name : String}
    (hname : ofAscii name ∉ names.map ofAscii) :
    keyword (without (.object members) names) name = keyword (.object members) name := by
  apply lookup_filter
  intro value
  simpa using hname

theorem keyword_without_self (members : List (JsString × Json)) (name : String) :
    keyword (without (.object members) [name]) name = none := by
  apply List.lookup_eq_none_iff.mpr
  intro member hmember
  have hkept := (List.mem_filter.mp hmember).2
  simp only [List.map_cons, List.map_nil, List.contains_cons, List.contains_nil,
    Bool.or_false, Bool.not_eq_true', beq_eq_false_iff_ne] at hkept
  exact bne_iff_ne.mpr hkept.symm

/-- What stands beside `allOf` is a schema. -/
theorem IsSchema.without {members : List (JsString × Json)}
    (hschema : IsSchema (.object members)) : IsSchema (without (.object members) ["allOf"]) := by
  cases hschema with
  | object hproperties hallOf htables hdefinitions =>
      have hkept {name : String} (hname : name ∈ ["definitions", "$defs"]) :
          keyword (Catalog.without (.object members) ["allOf"]) name =
            keyword (.object members) name := by
        apply keyword_without
        revert name
        decide
      apply IsSchema.object
      · intro value hvalue
        exact hproperties value ((keyword_without (by decide)).symm.trans hvalue)
      · intro elements helements
        have hnone := keyword_without_self members "allOf"
        rw [Catalog.without] at hnone
        rw [hnone] at helements
        cases helements
      · intro name hname value hvalue
        exact htables name hname value ((hkept hname).symm.trans hvalue)
      · intro name hname table htable
        exact hdefinitions name hname table ((hkept hname).symm.trans htable)

theorem IsSchema.table {schema : Json} (hschema : IsSchema schema) {name : String}
    (hname : name ∈ ["definitions", "$defs"]) {definition : JsString} {target : Json}
    (htarget : definitionIn (keyword schema name) definition = some target) :
    IsSchema target := by
  rw [definitionIn] at htarget
  cases hfound : keyword schema name with
  | none =>
      rw [hfound] at htarget
      cases htarget
  | some value =>
      cases hschema with
      | bool => cases hfound
      | object hproperties hallOf htables hdefinitions =>
          obtain ⟨table, rfl⟩ := htables name hname value hfound
          rw [hfound] at htarget
          have hown : ownProperty (.object table) definition = some target := htarget
          unfold ownProperty at hown
          cases hlookup : (enumerable (.object table)).lookup definition with
          | none =>
              rw [hlookup] at hown
              dsimp only at hown
              split_ifs at hown
          | some entry =>
              rw [hlookup] at hown
              obtain rfl := Option.some.inj hown
              obtain ⟨before, after, htable, _⟩ := List.lookup_eq_some_iff.mp hlookup
              apply hdefinitions name hname table hfound (definition, entry)
              rw [show table = before ++ (definition, entry) :: after from htable]
              exact List.mem_append_right before List.mem_cons_self

/-- A definition of a schema is a schema. -/
theorem IsSchema.definition {schema target : Json} (hschema : IsSchema schema) {name : JsString}
    (htarget : resolveDefinition schema name = some target) : IsSchema target := by
  rw [resolveDefinition] at htarget
  cases hfirst : definitionIn (keyword schema "definitions") name with
  | none =>
      rw [hfirst] at htarget
      exact hschema.table (by simp) htarget
  | some found =>
      rw [hfirst] at htarget
      obtain rfl := Option.some.inj htarget
      exact hschema.table (by simp) hfirst

/-! ## Charges of a walk -/

/-- A visit. -/
def visited : Charges := ⟨1, []⟩

/-- A text that is checked. -/
def checked (text : JsString) : Charges := ⟨0, [text]⟩

/-- The entries of `required`. -/
def requiredOf (schema : Json) : List Json := (elementsOf (keyword schema "required")).getD []

/-- The names of the properties, and the entries of `required`. -/
def declaredCharges (schema : Json) : Charges :=
  match keyword schema "properties" with
  | some (.object members) => namesCharges members + requiredCharges (requiredOf schema)
  | _ => 0

/-- The visits and the texts of the walk over the parts of an intersection and over definitions,
where it passes no union and is not nested deeper than its first argument. -/
def keyCharges (defs : Json) : ℕ → List JsString → ℕ → Json → Option Charges
  | 0, _, _, _ => none
  | fuel + 1, seen, depth, schema =>
      if 4 < depth then some visited
      else
        match elementsOf (keyword schema "allOf") with
        | some members =>
            (partNames (keyCharges defs fuel seen)
              (allOfParts (without schema ["allOf"]) depth members)).map fun parts =>
                visited + (namesCharges (enumerable schema) + parts.sum)
        | none =>
        match referenceOf schema with
        | some (reference, dynamic) =>
            let name := referenceName reference dynamic
            if name ∈ seen then some (visited + checked reference)
            else
              match resolveDefinition defs name with
              | none => some (visited + checked reference)
              | some target =>
                  (keyCharges defs fuel (seen ++ [name]) depth target).map fun behind =>
                    visited + (checked reference + behind)
        | none =>
            if (unionOf schema).isSome then none
            else some (visited + if objectNode schema then declaredCharges schema else 0)

section

variable {defs : Json} {fuel : ℕ} {seen : List JsString} {depth : ℕ} {schema : Json}
variable (hdepth : ¬4 < depth)
include hdepth

theorem keyCharges_allOf {members : List Json}
    (hallOf : elementsOf (keyword schema "allOf") = some members) :
    keyCharges defs (fuel + 1) seen depth schema =
      (partNames (keyCharges defs fuel seen)
        (allOfParts (without schema ["allOf"]) depth members)).map fun parts =>
          visited + (namesCharges (enumerable schema) + parts.sum) := by
  rw [keyCharges, if_neg hdepth, hallOf]

variable (hallOf : elementsOf (keyword schema "allOf") = none)
include hallOf

theorem keyCharges_reference {reference : JsString} {dynamic : Bool} {target : Json}
    (hreference : referenceOf schema = some (reference, dynamic))
    (hseen : referenceName reference dynamic ∉ seen)
    (htarget : resolveDefinition defs (referenceName reference dynamic) = some target) :
    keyCharges defs (fuel + 1) seen depth schema =
      (keyCharges defs fuel (seen ++ [referenceName reference dynamic]) depth target).map
        fun behind => visited + (checked reference + behind) := by
  rw [keyCharges, if_neg hdepth, hallOf]
  dsimp only
  rw [hreference]
  dsimp only
  rw [if_neg hseen, htarget]

variable (hreference : referenceOf schema = none)
include hreference

theorem keyCharges_union (hunion : (unionOf schema).isSome = true) :
    keyCharges defs (fuel + 1) seen depth schema = none := by
  rw [keyCharges, if_neg hdepth, hallOf]
  dsimp only
  rw [hreference]
  dsimp only
  rw [if_pos hunion]

theorem keyCharges_shape (hunion : unionOf schema = none) :
    keyCharges defs (fuel + 1) seen depth schema =
      some (visited + if objectNode schema then declaredCharges schema else 0) := by
  rw [keyCharges, if_neg hdepth, hallOf]
  dsimp only
  rw [hreference]
  dsimp only
  rw [hunion, if_neg (by simp)]

end

/-- The walk for the keys of a schema passes no union, stays within its work and checks no text
that is too long. -/
def KeysWithin (schema : Json) : Prop :=
  ∃ charges, keyCharges schema maxSchemaWork [] 0 schema = some charges ∧
    charges.visits ≤ maxSchemaWork ∧
      ∀ text ∈ charges.texts, fits maxCompactDiscoverySchemaBytes text = true

end Connecta.Catalog
