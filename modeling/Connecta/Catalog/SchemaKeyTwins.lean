import Connecta.Catalog.SchemaCharges
import Connecta.Catalog.SchemaRenderings

/-!
# The keys of a schema and of its rendering

The walk that collects the keys of a schema finds those at the top level of what the schema
renders as, and finds them wherever it passes no union and stays within its limits.
-/

namespace Connecta.Catalog

open Connecta.Foundation
open Connecta.Foundation.Faulty
open Connecta.Runtime
open Connecta.Runtime.JsString (ofAscii)
open SchemaWalk

/-! ## Keys and names -/

/-- Keys are those of a rendering: its names in order, and those given no `?`. -/
structure Matches (keys : SchemaObjectKeys) (names : List (JsString × Bool)) : Prop where
  properties : keys.properties = distinct (names.map Prod.fst)
  required : ∀ name, name ∈ keys.required ↔ (name, false) ∈ names

theorem matches_merged {parts : List SchemaObjectKeys} {names : List (List (JsString × Bool))}
    (hparts : List.Forall₂ Matches parts names) :
    Matches ⟨distinct (parts.flatMap (·.properties)), distinct (parts.flatMap (·.required))⟩
      names.flatten := by
  constructor
  · have hproperties : parts.flatMap (·.properties) =
        names.flatMap fun part => distinct (part.map Prod.fst) := by
      induction hparts with
      | nil => rfl
      | cons hpart _ ih => rw [List.flatMap_cons, List.flatMap_cons, hpart.properties, ih]
    rw [hproperties, distinct_flatMap, List.map_flatten, List.flatMap_def]
  · intro name
    rw [mem_distinct, List.mem_flatMap, List.mem_flatten]
    induction hparts with
    | nil => simp
    | cons hpart _ ih => simp [hpart.required name, ih]

/-- The keys of an object schema that is asked for its own. -/
def declaredOf (schema : Json) : SchemaObjectKeys :=
  match keyword schema "properties" with
  | some (.object members) =>
      ⟨members.map Prod.fst, (requiredNames schema).filter (members.map Prod.fst).contains⟩
  | _ => ⟨[], []⟩

theorem matches_declaredOf {schema : Json} (hschema : IsSchema schema) :
    Matches (declaredOf schema) (ownNames schema) := by
  cases hfound : keyword schema "properties" with
  | none =>
      have hproperties : propertiesOf schema = .object [] := by
        rw [propertiesOf, hfound]
        rfl
      rw [declaredOf, hfound, ownNames, hproperties]
      exact ⟨rfl, fun name => iff_of_false List.not_mem_nil List.not_mem_nil⟩
  | some value =>
      obtain ⟨members, rfl, hnodup⟩ :
          ∃ properties, value = .object properties ∧ (properties.map Prod.fst).Nodup := by
        cases hschema with
        | bool => cases hfound
        | object hproperties => exact hproperties value hfound
      have hproperties : propertiesOf schema = .object members := by
        rw [propertiesOf, hfound]
        rfl
      have hnames : ownNames schema = members.map fun property =>
          (property.1, !(requiredNames schema).contains property.1) := by
        rw [ownNames, hproperties]
        rfl
      rw [declaredOf, hfound, hnames]
      constructor
      · rw [List.map_map]
        exact (distinct_of_nodup hnodup).symm
      · intro name
        simp only [List.mem_filter, List.contains_iff_mem, List.mem_map, Prod.mk.injEq,
          Bool.not_eq_false']
        constructor
        · rintro ⟨hrequired, member, hmember, rfl⟩
          exact ⟨member, hmember, rfl, hrequired⟩
        · rintro ⟨member, hmember, rfl, hrequired⟩
          exact ⟨hrequired, member, hmember, rfl⟩

/-! ## What the walk does at a schema -/

section

variable {state after : SchemaWork} {answer : Option SchemaObjectKeys}

theorem schemaRequired_eq (schema : Json) :
    schemaRequired schema = requiredFrom (requiredOf schema) := by
  rw [schemaRequired, requiredOf]
  cases elementsOf (keyword schema "required") with
  | none => rfl
  | some required => rfl

theorem runs_declaredKeys (schema : Json) :
    Runs (declaredKeys schema) state answer after ↔
      answer = some (declaredOf schema) ∧ Spent state (declaredCharges schema) after := by
  have hempty (hkeys : declaredKeys schema = pure (some ⟨[], []⟩))
      (hdeclared : declaredOf schema = ⟨[], []⟩) (hcharges : declaredCharges schema = 0) :
      Runs (declaredKeys schema) state answer after ↔
        answer = some (declaredOf schema) ∧ Spent state (declaredCharges schema) after := by
    rw [hkeys, hdeclared, hcharges, runs_pure, spent_zero]
    exact and_congr_left' eq_comm
  rcases hfound : keyword schema "properties" with _ | value
  · apply hempty <;> simp [declaredKeys, declaredOf, declaredCharges, hfound]
  cases value with
  | object members =>
      have hkeys : declaredKeys schema = (do
          let properties ← propertyNames (.object members)
          let required ← schemaRequired schema
          pure (some ⟨properties, required.filter properties.contains⟩)) := by
        rw [declaredKeys, hfound]
      have hdeclared : declaredOf schema = ⟨members.map Prod.fst,
          (requiredNames schema).filter (members.map Prod.fst).contains⟩ := by
        rw [declaredOf, hfound]
      have hcharges : declaredCharges schema =
          namesCharges members + requiredCharges (requiredOf schema) := by
        rw [declaredCharges, hfound]
      rw [hkeys, hdeclared, hcharges, spent_add, runs_bind, schemaRequired_eq]
      constructor
      · rintro ⟨properties, first, hproperties, hrun⟩
        obtain ⟨required, second, hrequired, hrun⟩ := runs_bind.mp hrun
        obtain ⟨rfl, rfl⟩ := runs_pure.mp hrun
        obtain ⟨rfl, hfirst⟩ := runs_namesFrom.mp hproperties
        obtain ⟨rfl, hsecond⟩ := runs_requiredFrom.mp hrequired
        exact ⟨rfl, first, hfirst, hsecond⟩
      · rintro ⟨rfl, first, hfirst, hsecond⟩
        exact ⟨_, first, runs_namesFrom.mpr ⟨rfl, hfirst⟩, runs_bind.mpr
          ⟨_, after, runs_requiredFrom.mpr ⟨rfl, hsecond⟩, runs_pure.mpr ⟨rfl, rfl⟩⟩⟩
  | null => apply hempty <;> simp [declaredKeys, declaredOf, declaredCharges, hfound]
  | bool value => apply hempty <;> simp [declaredKeys, declaredOf, declaredCharges, hfound]
  | number lexeme => apply hempty <;> simp [declaredKeys, declaredOf, declaredCharges, hfound]
  | string text => apply hempty <;> simp [declaredKeys, declaredOf, declaredCharges, hfound]
  | array elements => apply hempty <;> simp [declaredKeys, declaredOf, declaredCharges, hfound]

/-- The walk visits a schema before it reads its keywords. -/
theorem runs_objectKeys {defs : Json} {fuel : ℕ} {seen : List JsString} {depth : ℕ}
    (hdepth : ¬4 < depth) (members : List (JsString × Json)) :
    Runs (objectKeys defs (fuel + 1) seen depth (.object members)) state answer after ↔
      ∃ middle, Spent state visited middle ∧
        Runs (keywordKeys defs (objectKeys defs fuel) seen depth (.object members)) middle answer
          after := by
  rw [objectKeys, runs_bind]
  simp only [if_neg hdepth]
  constructor
  · rintro ⟨_, middle, hvisit, hrun⟩
    exact ⟨middle, runs_visit.mp hvisit, hrun⟩
  · rintro ⟨middle, hvisit, hrun⟩
    exact ⟨(), middle, runs_visit.mpr hvisit, hrun⟩

/-- A schema without keywords has no keys, and neither has one that is nested too deep. -/
theorem not_runs_objectKeys {defs : Json} {fuel : ℕ} {seen : List JsString} {depth : ℕ}
    {schema : Json} {keys : SchemaObjectKeys}
    (hschema : 4 < depth ∨ ∃ value, schema = .bool value) :
    ¬Runs (objectKeys defs fuel seen depth schema) state (some keys) after := by
  intro hrun
  cases fuel with
  | zero => exact not_runs_throw hrun
  | succ fuel =>
      unfold objectKeys at hrun
      obtain ⟨_, middle, _, hrun⟩ := runs_bind.mp hrun
      rcases hschema with hdepth | ⟨value, rfl⟩
      · rw [if_pos hdepth] at hrun
        cases (runs_pure.mp hrun).1
      · split_ifs at hrun
        · cases (runs_pure.mp hrun).1
        · cases (runs_pure.mp hrun).1

variable {defs : Json} {keysOf : List JsString → ℕ → Json → SchemaWalk (Option SchemaObjectKeys)}
  {seen : List JsString} {depth : ℕ} {schema : Json}

theorem keywordKeys_shape (hallOf : elementsOf (keyword schema "allOf") = none)
    (hreference : referenceOf schema = none) (hunion : unionOf schema = none) :
    keywordKeys defs keysOf seen depth schema =
      if objectNode schema then declaredKeys schema else pure none := by
  rw [keywordKeys, hallOf]
  dsimp only
  rw [hreference]
  dsimp only
  rw [hunion, objectNode]
  generalize elementsOf (keyword schema "enum") = choices
  generalize keyword schema "const" = constant
  generalize elementsOf (keyword schema "prefixItems") = items
  generalize (hasType schema "array" || truthy (keyword schema "items")) = array
  generalize (hasType schema "object" || truthy (keyword schema "properties")) = object
  cases choices <;> cases constant <;> cases items <;> cases array <;> cases object <;> rfl

theorem runs_referenceKeys {reference : JsString} {dynamic : Bool} {keys : SchemaObjectKeys} :
    Runs (referenceKeys defs keysOf reference dynamic seen depth) state (some keys) after ↔
      referenceName reference dynamic ∉ seen ∧
        ∃ target, resolveDefinition defs (referenceName reference dynamic) = some target ∧
          ∃ middle, Spent state (checked reference) middle ∧
            Runs (keysOf (seen ++ [referenceName reference dynamic]) depth target) middle
              (some keys) after := by
  rw [referenceKeys, runs_bind]
  constructor
  · rintro ⟨kept, middle, hkept, hrun⟩
    obtain ⟨rfl, hspent⟩ := runs_text.mp hkept
    dsimp only at hrun
    split_ifs at hrun with hseen
    · cases (runs_pure.mp hrun).1
    · refine ⟨hseen, ?_⟩
      cases htarget : resolveDefinition defs (referenceName kept dynamic) with
      | none =>
          rw [htarget] at hrun
          cases (runs_pure.mp hrun).1
      | some target =>
          rw [htarget] at hrun
          exact ⟨target, rfl, middle, hspent, hrun⟩
  · rintro ⟨hseen, target, htarget, middle, hspent, hrun⟩
    refine ⟨reference, middle, runs_text.mpr ⟨rfl, hspent⟩, ?_⟩
    dsimp only
    rw [if_neg hseen, htarget]
    exact hrun

end

/-! ## Intersections -/

theorem eq_map_some {Part : Type} {parts : List (Option Part)}
    (hparts : parts.all (·.isSome) = true) : parts = (parts.filterMap id).map some := by
  induction parts with
  | nil => rfl
  | cons part rest ih =>
      rw [List.all_cons, Bool.and_eq_true] at hparts
      obtain ⟨found, rfl⟩ := Option.isSome_iff_exists.mp hparts.1
      rw [List.filterMap_cons_some (rfl : id (some found) = some found), List.map_cons,
        ← ih hparts.2]

theorem filterMap_map_some {Part : Type} (parts : List Part) :
    (parts.map some).filterMap id = parts := by
  rw [List.filterMap_map]
  exact List.filterMap_some

theorem all_map_some {Part : Type} (parts : List Part) :
    (parts.map some).all (·.isSome) = true := by
  rw [List.all_map]
  exact List.all_eq_true.mpr fun _ _ => rfl

/-- The keys of some parts, in order. -/
def merged (parts : List SchemaObjectKeys) : SchemaObjectKeys :=
  ⟨distinct (parts.flatMap (·.properties)), distinct (parts.flatMap (·.required))⟩

theorem mergedParts_eq_some {found : List (Option SchemaObjectKeys)} {keys : SchemaObjectKeys} :
    mergedParts found = some keys ↔
      ∃ parts, parts ≠ [] ∧ found = parts.map some ∧ keys = merged parts := by
  constructor
  · intro hmerged
    rw [mergedParts, mergedKeys] at hmerged
    split_ifs at hmerged with hall hempty
    exact ⟨_, hempty, eq_map_some hall, (Option.some.inj hmerged).symm⟩
  · rintro ⟨parts, hparts, rfl, rfl⟩
    rw [mergedParts, if_pos (all_map_some parts), filterMap_map_some, mergedKeys, if_neg hparts]
    rfl

theorem joinNames_eq_some {found : List (Option (List (JsString × Bool)))}
    {names : List (JsString × Bool)} :
    joinNames found = some names ↔
      ∃ parts, parts ≠ [] ∧ found = parts.map some ∧ names = parts.flatten := by
  constructor
  · intro hjoined
    rw [joinNames] at hjoined
    split_ifs at hjoined with hall
    refine ⟨_, ?_, eq_map_some hall.2, (Option.some.inj hjoined).symm⟩
    intro hempty
    apply hall.1
    rw [eq_map_some hall.2, hempty]
    rfl
  · rintro ⟨parts, hparts, rfl, rfl⟩
    have hmapped : parts.map some ≠ [] := fun hempty => hparts (List.map_eq_nil_iff.mp hempty)
    rw [joinNames, if_pos ⟨hmapped, all_map_some parts⟩, filterMap_map_some]

/-- What is told of a schema: its keys, the charges of the walk and the names it renders with. -/
structure Told where
  keys : SchemaObjectKeys
  charges : Charges
  names : List (JsString × Bool)

structure Tells (defs : Json) (fuel : ℕ) (seen : List JsString) (part : ℕ × Json)
    (told : Told) : Prop where
  charges : keyCharges defs fuel seen part.1 part.2 = some told.charges
  names : topNames defs fuel seen part.1 part.2 = some (some told.names)
  keys : Matches told.keys told.names

section

variable {defs : Json} {fuel more : ℕ} {seen : List JsString}

/-- An intersection tells of its parts. -/
theorem tells_allOf {depth : ℕ} {schema : Json} {members : List Json} (hdepth : ¬4 < depth)
    (hallOf : elementsOf (keyword schema "allOf") = some members) {told : List Told}
    (htold : List.Forall₂ (Tells defs fuel seen)
      (allOfParts (without schema ["allOf"]) depth members) told) (hne : told ≠ []) :
    Tells defs (fuel + 1) seen (depth, schema)
      ⟨merged (told.map Told.keys),
        visited + (namesCharges (enumerable schema) + (told.map Told.charges).sum),
        (told.map Told.names).flatten⟩ := by
  constructor
  · have hcharges : partNames (keyCharges defs fuel seen)
        (allOfParts (without schema ["allOf"]) depth members) =
          some (told.map Told.charges) := by
      rw [partNames_eq_some, List.forall₂_map_right_iff]
      exact htold.imp fun _ _ htells => htells.charges
    rw [keyCharges_allOf hdepth hallOf, hcharges]
    rfl
  · have hnames : partNames (topNames defs fuel seen)
        (allOfParts (without schema ["allOf"]) depth members) =
          some ((told.map Told.names).map some) := by
      rw [partNames_eq_some, List.map_map, List.forall₂_map_right_iff]
      exact htold.imp fun _ _ htells => htells.names
    rw [topNames_allOf hdepth hallOf, hnames, Option.map_some]
    apply congrArg
    exact joinNames_eq_some.mpr ⟨_, fun hempty => hne (List.map_eq_nil_iff.mp hempty), rfl, rfl⟩
  · apply matches_merged
    generalize allOfParts (without schema ["allOf"]) depth members = parts at htold
    clear hne
    induction htold with
    | nil => exact .nil
    | cons htells _ ih => exact .cons htells.keys ih

/-! ## Keys tell names -/

/-- Where the walk finds the keys of a schema, they are told of it. -/
abbrev FindsTold (defs : Json) (fuel : ℕ) : Prop :=
  ∀ seen depth schema, IsSchema schema → ∀ state keys after,
    Runs (objectKeys defs fuel seen depth schema) state (some keys) after →
      ∃ told, told.keys = keys ∧ Tells defs fuel seen (depth, schema) told ∧
        Spent state told.charges after

theorem tells_of_memberKeys (hfinds : FindsTold defs fuel) {depth : ℕ} {members : List Json}
    (hmembers : ∀ member ∈ members, IsSchema member) {parts found : List (Option SchemaObjectKeys)}
    {state after : SchemaWork}
    (hrun : Runs (memberKeys (objectKeys defs fuel) seen depth parts members) state (some found)
      after) :
    ∃ told : List Told, found = parts ++ (told.map Told.keys).map some ∧
      List.Forall₂ (Tells defs fuel seen) (members.map (depth, ·)) told ∧
        Spent state (told.map Told.charges).sum after := by
  induction members generalizing parts state with
  | nil =>
      obtain ⟨hfound, rfl⟩ := runs_pure.mp hrun
      refine ⟨[], ?_, .nil, spent_zero.mpr rfl⟩
      rw [← Option.some.inj hfound]
      exact (List.append_nil parts).symm
  | cons member rest ih =>
      obtain ⟨hmember, hrest⟩ := List.forall_mem_cons.mp hmembers
      rw [memberKeys] at hrun
      obtain ⟨answer, middle, hfirst, hrun⟩ := runs_bind.mp hrun
      cases answer with
      | none => cases (runs_pure.mp hrun).1
      | some keys =>
          obtain ⟨first, rfl, htells, hspent⟩ := hfinds _ _ _ hmember _ _ _ hfirst
          obtain ⟨told, hfound, hall, hbehind⟩ := ih hrest hrun
          refine ⟨first :: told, ?_, .cons htells hall, spent_add.mpr ⟨middle, hspent, hbehind⟩⟩
          rw [hfound, List.append_assoc]
          rfl

theorem tells_of_allOfKeys (hfinds : FindsTold defs fuel) {depth : ℕ} {schema : Json}
    {members : List Json} (hdepth : ¬4 < depth)
    (hallOf : elementsOf (keyword schema "allOf") = some members)
    (hown : IsSchema (without schema ["allOf"])) (hmembers : ∀ member ∈ members, IsSchema member)
    {state first after : SchemaWork} {keys : SchemaObjectKeys}
    (hvisit : Spent state visited first)
    (hrun : Runs (allOfKeys (objectKeys defs fuel) members seen depth schema) first (some keys)
      after) :
    ∃ told, told.keys = keys ∧ Tells defs (fuel + 1) seen (depth, schema) told ∧
      Spent state told.charges after := by
  rw [allOfKeys] at hrun
  obtain ⟨names, second, hnames, hrun⟩ := runs_bind.mp hrun
  obtain ⟨own, third, hownKeys, hrun⟩ := runs_bind.mp hrun
  obtain ⟨answer, fourth, hmemberKeys, hrun⟩ := runs_bind.mp hrun
  obtain ⟨hmerged, rfl⟩ := runs_pure.mp hrun
  obtain ⟨found, rfl, hfound⟩ := Option.bind_eq_some_iff.mp hmerged
  obtain ⟨parts, hparts, rfl, rfl⟩ := mergedParts_eq_some.mp hfound
  obtain ⟨told, hold, htold, hspent⟩ := tells_of_memberKeys hfinds hmembers hmemberKeys
  obtain ⟨_, hcharged⟩ := runs_namesFrom.mp hnames
  have hall : ∃ all : List Told, parts = all.map Told.keys ∧
      List.Forall₂ (Tells defs fuel seen)
        (allOfParts (without schema ["allOf"]) depth members) all ∧
          Spent second (all.map Told.charges).sum fourth := by
    rw [ownKeys] at hownKeys
    rw [allOfParts]
    by_cases hshape : declaresShape (without schema ["allOf"]) = true
    · rw [if_pos hshape] at hownKeys ⊢
      obtain ⟨answer, between, hkeys, hrun⟩ := runs_bind.mp hownKeys
      obtain ⟨rfl, rfl⟩ := runs_pure.mp hrun
      cases answer with
      | none =>
          have hsome := all_map_some parts
          rw [hold] at hsome
          cases hsome
      | some keys =>
          obtain ⟨first, rfl, htells, hfirst⟩ := hfinds _ _ _ hown _ _ _ hkeys
          refine ⟨first :: told, ?_, .cons htells htold,
            spent_add.mpr ⟨between, hfirst, hspent⟩⟩
          exact List.map_injective_iff.mpr (Option.some_injective _) hold
    · rw [if_neg hshape] at hownKeys ⊢
      obtain ⟨rfl, rfl⟩ := runs_pure.mp hownKeys
      refine ⟨told, ?_, htold, hspent⟩
      exact List.map_injective_iff.mpr (Option.some_injective _) hold
  obtain ⟨all, rfl, htells, hbehind⟩ := hall
  have hne : all ≠ [] := fun hempty => hparts (hempty ▸ rfl)
  exact ⟨_, rfl, tells_allOf hdepth hallOf htells hne,
    spent_add.mpr ⟨first, hvisit, spent_add.mpr ⟨second, hcharged, hbehind⟩⟩⟩

/-- Keys are found where they are told, and they are those of the rendering. -/
theorem findsTold (hdefs : IsSchema defs) (fuel : ℕ) : FindsTold defs fuel := by
  induction fuel with
  | zero => exact fun _ _ _ _ _ _ _ hrun => absurd hrun not_runs_throw
  | succ fuel ih =>
      intro seen depth schema hschema state keys after hrun
      by_cases hdepth : 4 < depth
      · exact absurd hrun (not_runs_objectKeys (.inl hdepth))
      cases hschema with
      | bool value => exact absurd hrun (not_runs_objectKeys (.inr ⟨value, rfl⟩))
      | @object members hproperties hmembers htables hdefinitions =>
      have hschema : IsSchema (.object members) :=
        .object hproperties hmembers htables hdefinitions
      obtain ⟨first, hvisit, hrun⟩ := (runs_objectKeys hdepth members).mp hrun
      cases hallOf : elementsOf (keyword (.object members) "allOf") with
      | some parts =>
          rw [keywordKeys, hallOf] at hrun
          exact tells_of_allOfKeys ih hdepth hallOf hschema.without (hmembers parts hallOf) hvisit
            hrun
      | none =>
      cases hreference : referenceOf (.object members) with
      | some found =>
          obtain ⟨reference, dynamic⟩ := found
          rw [keywordKeys, hallOf] at hrun
          dsimp only at hrun
          rw [hreference] at hrun
          obtain ⟨hseen, target, htarget, second, hchecked, hrun⟩ := runs_referenceKeys.mp hrun
          obtain ⟨told, rfl, htells, hspent⟩ :=
            ih _ _ _ (hdefs.definition htarget) _ _ _ hrun
          refine ⟨⟨told.keys, visited + (checked reference + told.charges), told.names⟩, rfl,
            ⟨?_, ?_, htells.keys⟩,
            spent_add.mpr ⟨first, hvisit, spent_add.mpr ⟨second, hchecked, hspent⟩⟩⟩
          · dsimp only
            rw [keyCharges_reference hdepth hallOf hreference hseen htarget]
            exact Option.map_eq_some_iff.mpr ⟨told.charges, htells.charges, rfl⟩
          · dsimp only
            rw [topNames_reference hdepth hallOf hreference, if_neg hseen, htarget]
            exact htells.names
      | none =>
      cases hunion : unionOf (.object members) with
      | some union =>
          rw [keywordKeys, hallOf] at hrun
          dsimp only at hrun
          rw [hreference] at hrun
          dsimp only at hrun
          rw [hunion] at hrun
          cases (runs_pure.mp hrun).1
      | none =>
          rw [keywordKeys_shape hallOf hreference hunion] at hrun
          split_ifs at hrun with hnode
          · obtain ⟨hkeys, hspent⟩ := (runs_declaredKeys _).mp hrun
            obtain rfl := Option.some.inj hkeys
            refine ⟨⟨_, visited + declaredCharges _, ownNames _⟩, rfl,
              ⟨?_, ?_, matches_declaredOf hschema⟩, spent_add.mpr ⟨first, hvisit, hspent⟩⟩
            · dsimp only
              rw [keyCharges_shape hdepth hallOf hreference hunion, if_pos hnode]
            · dsimp only
              rw [topNames_shape hdepth hallOf hreference hunion, if_pos hnode]
          · cases (runs_pure.mp hrun).1

/-! ## Keys are found -/

/-- Where a schema renders with names and the walk can be paid, it finds keys. -/
abbrev FindsKeys (defs : Json) (fuel : ℕ) : Prop :=
  ∀ seen depth schema, IsSchema schema → ∀ charges more names state after,
    keyCharges defs fuel seen depth schema = some charges →
      topNames defs more seen depth schema = some (some names) → Spent state charges after →
        ∃ keys, Runs (objectKeys defs fuel seen depth schema) state (some keys) after

theorem runs_memberKeys (hfinds : FindsKeys defs fuel) {depth : ℕ} {members : List Json}
    (hmembers : ∀ member ∈ members, IsSchema member) {charges : List Charges}
    (hcharges : partNames (keyCharges defs fuel seen) (members.map (depth, ·)) = some charges)
    {names : List (List (JsString × Bool))}
    (hnames : partNames (topNames defs more seen) (members.map (depth, ·)) =
      some (names.map some))
    {state after : SchemaWork} (hspent : Spent state charges.sum after)
    (parts : List (Option SchemaObjectKeys)) :
    ∃ keys : List SchemaObjectKeys, keys.length = members.length ∧
      Runs (memberKeys (objectKeys defs fuel) seen depth parts members) state
        (some (parts ++ keys.map some)) after := by
  rw [partNames_eq_some] at hcharges hnames
  induction members generalizing parts charges names state with
  | nil =>
      cases hcharges
      obtain rfl := spent_zero.mp hspent
      refine ⟨[], rfl, runs_pure.mpr ⟨?_, rfl⟩⟩
      rw [List.map_nil, List.append_nil]
  | cons member rest ih =>
      obtain ⟨hmember, hrest⟩ := List.forall_mem_cons.mp hmembers
      cases hcharges with
      | @cons _ charge _ charges hcharge hcharges =>
          cases names with
          | nil => cases hnames
          | cons name names =>
              obtain ⟨hname, hnames⟩ := List.forall₂_cons.mp hnames
              obtain ⟨middle, hfirst, hspent⟩ := spent_add.mp hspent
              obtain ⟨first, hrun⟩ := hfinds _ _ _ hmember _ _ _ _ _ hcharge hname hfirst
              obtain ⟨keys, hlength, hruns⟩ := ih hrest hcharges hnames hspent
                (parts ++ [some first])
              refine ⟨first :: keys, congrArg Nat.succ hlength, ?_⟩
              rw [memberKeys]
              refine runs_bind.mpr ⟨_, middle, hrun, ?_⟩
              rw [List.append_assoc] at hruns
              exact hruns

theorem runs_allOfKeys (hfinds : FindsKeys defs fuel) {depth : ℕ} {schema : Json}
    {members : List Json} (hown : IsSchema (without schema ["allOf"]))
    (hmembers : ∀ member ∈ members, IsSchema member) {charges : List Charges}
    (hcharges : partNames (keyCharges defs fuel seen)
      (allOfParts (without schema ["allOf"]) depth members) = some charges)
    {names : List (List (JsString × Bool))} (hne : names ≠ [])
    (hnames : partNames (topNames defs more seen)
      (allOfParts (without schema ["allOf"]) depth members) = some (names.map some))
    {first second after : SchemaWork}
    (hcharged : Spent first (namesCharges (enumerable schema)) second)
    (hspent : Spent second charges.sum after) :
    ∃ keys, Runs (allOfKeys (objectKeys defs fuel) members seen depth schema) first (some keys)
      after := by
  have hparts : ∃ own middle, Runs (ownKeys (objectKeys defs fuel) seen depth
      (without schema ["allOf"])) second own middle ∧ ∃ parts : List SchemaObjectKeys,
        parts ≠ [] ∧ Runs (memberKeys (objectKeys defs fuel) seen (depth + 1) own members) middle
          (some (parts.map some)) after := by
    rw [ownKeys]
    rw [allOfParts] at hcharges hnames
    by_cases hshape : declaresShape (without schema ["allOf"]) = true
    · rw [if_pos hshape] at hcharges hnames ⊢
      rw [List.singleton_append, partNames] at hcharges hnames
      obtain ⟨charge, hcharge, hcharges⟩ := Option.bind_eq_some_iff.mp hcharges
      obtain ⟨rest, hrest, rfl⟩ := Option.map_eq_some_iff.mp hcharges
      obtain ⟨name, hname, hnames⟩ := Option.bind_eq_some_iff.mp hnames
      obtain ⟨others, hnames, hsame⟩ := Option.map_eq_some_iff.mp hnames
      cases names with
      | nil => exact absurd rfl hne
      | cons found names =>
          obtain ⟨rfl, rfl⟩ := List.cons.inj hsame
          obtain ⟨middle, hpaid, hspent⟩ := spent_add.mp hspent
          obtain ⟨keys, hrun⟩ := hfinds _ _ _ hown _ _ _ _ _ hcharge hname hpaid
          obtain ⟨parts, _, hruns⟩ := runs_memberKeys hfinds hmembers hrest hnames hspent
            [some keys]
          exact ⟨_, middle, runs_bind.mpr ⟨_, middle, hrun, runs_pure.mpr ⟨rfl, rfl⟩⟩,
            keys :: parts, List.cons_ne_nil _ _, hruns⟩
    · rw [if_neg hshape] at hcharges hnames ⊢
      obtain ⟨parts, hlength, hruns⟩ := runs_memberKeys hfinds hmembers hcharges hnames hspent []
      refine ⟨_, second, runs_pure.mpr ⟨rfl, rfl⟩, parts, ?_, hruns⟩
      rintro rfl
      obtain rfl := List.length_eq_zero_iff.mp hlength.symm
      exact hne (List.map_eq_nil_iff.mp (Option.some.inj hnames).symm)
  obtain ⟨own, middle, hownKeys, parts, hne', hmemberKeys⟩ := hparts
  refine ⟨merged parts, ?_⟩
  rw [allOfKeys]
  refine runs_bind.mpr ⟨_, second, runs_namesFrom.mpr ⟨rfl, hcharged⟩, ?_⟩
  refine runs_bind.mpr ⟨_, middle, hownKeys, ?_⟩
  refine runs_bind.mpr ⟨_, after, hmemberKeys, runs_pure.mpr ⟨?_, rfl⟩⟩
  exact mergedParts_eq_some.mpr ⟨parts, hne', rfl, rfl⟩

theorem findsKeys (hdefs : IsSchema defs) (fuel : ℕ) : FindsKeys defs fuel := by
  induction fuel with
  | zero =>
      intro seen depth schema _ charges more names state after hcharges
      cases hcharges
  | succ fuel ih =>
      intro seen depth schema hschema charges more names state after hcharges hnames hspent
      cases more with
      | zero => cases hnames
      | succ more =>
      by_cases hdepth : 4 < depth
      · rw [topNames_deep hdepth] at hnames
        cases hnames
      cases hschema with
      | bool value =>
          have hleaf := @topNames_leaf defs seen depth (.bool value) hdepth fun _ => rfl
          rw [topNames_le (Nat.succ_le_succ (Nat.zero_le more)) hleaf] at hnames
          cases hnames
      | @object members hproperties hmembers htables hdefinitions =>
      have hschema : IsSchema (.object members) :=
        .object hproperties hmembers htables hdefinitions
      simp only [runs_objectKeys hdepth]
      cases hallOf : elementsOf (keyword (.object members) "allOf") with
      | some parts =>
          rw [keyCharges_allOf hdepth hallOf] at hcharges
          rw [topNames_allOf hdepth hallOf] at hnames
          obtain ⟨charged, hcharged, rfl⟩ := Option.map_eq_some_iff.mp hcharges
          obtain ⟨found, hfound, hjoined⟩ := Option.map_eq_some_iff.mp hnames
          obtain ⟨lists, hlists, rfl, rfl⟩ := joinNames_eq_some.mp hjoined
          obtain ⟨first, hvisit, hspent⟩ := spent_add.mp hspent
          obtain ⟨second, hnamed, hspent⟩ := spent_add.mp hspent
          obtain ⟨keys, hrun⟩ := runs_allOfKeys ih hschema.without (hmembers parts hallOf) hcharged
            hlists hfound hnamed hspent
          refine ⟨keys, first, hvisit, ?_⟩
          rw [keywordKeys, hallOf]
          exact hrun
      | none =>
      cases hreference : referenceOf (.object members) with
      | some found =>
          obtain ⟨reference, dynamic⟩ := found
          rw [topNames_reference hdepth hallOf hreference] at hnames
          by_cases hseen : referenceName reference dynamic ∈ seen
          · rw [if_pos hseen] at hnames
            cases hnames
          rw [if_neg hseen] at hnames
          cases htarget : resolveDefinition defs (referenceName reference dynamic) with
          | none =>
              rw [htarget] at hnames
              cases hnames
          | some target =>
              rw [htarget] at hnames
              rw [keyCharges_reference hdepth hallOf hreference hseen htarget] at hcharges
              obtain ⟨charged, hcharged, rfl⟩ := Option.map_eq_some_iff.mp hcharges
              obtain ⟨first, hvisit, hspent⟩ := spent_add.mp hspent
              obtain ⟨second, hchecked, hspent⟩ := spent_add.mp hspent
              obtain ⟨keys, hrun⟩ := ih _ _ _ (hdefs.definition htarget) _ _ _ _ _ hcharged
                hnames hspent
              refine ⟨keys, first, hvisit, ?_⟩
              rw [keywordKeys, hallOf]
              dsimp only
              rw [hreference]
              exact runs_referenceKeys.mpr ⟨hseen, target, htarget, second, hchecked, hrun⟩
      | none =>
      cases hunion : unionOf (.object members) with
      | some union =>
          rw [keyCharges_union hdepth hallOf hreference (by rw [hunion]; rfl)] at hcharges
          cases hcharges
      | none =>
          rw [keyCharges_shape hdepth hallOf hreference hunion] at hcharges
          rw [topNames_shape hdepth hallOf hreference hunion] at hnames
          by_cases hnode : objectNode (.object members) = true
          swap
          · rw [if_neg hnode] at hnames
            cases hnames
          rw [if_pos hnode] at hcharges
          obtain rfl := Option.some.inj hcharges
          obtain ⟨first, hvisit, hspent⟩ := spent_add.mp hspent
          refine ⟨declaredOf (.object members), first, hvisit, ?_⟩
          rw [keywordKeys_shape hallOf hreference hunion, if_pos hnode]
          exact (runs_declaredKeys _).mpr ⟨rfl, hspent⟩

end

/-! ## Twins -/

theorem topNames_unique {defs : Json} {fuel more : ℕ} {seen : List JsString} {depth : ℕ}
    {schema : Json} {names others : Option (List (JsString × Bool))}
    (hnames : topNames defs fuel seen depth schema = some names)
    (hothers : topNames defs more seen depth schema = some others) : names = others := by
  have hfirst := topNames_le (le_max_left fuel more) hnames
  have hsecond := topNames_le (le_max_right fuel more) hothers
  exact Option.some.inj (hfirst.symm.trans hsecond)

theorem schemaObjectKeys_eq_some {schema : Json} {keys : SchemaObjectKeys}
    (hschema : IsSchema schema) : schemaObjectKeys (some schema) = some keys ↔
      ∃ after, Runs (workedKeys maxSchemaWork schema) (.start maxCompactDiscoverySchemaBytes)
        (some keys) after := by
  have hfalse : ¬truthy (some schema) = true → schema = .bool false := by
    intro hfalsy
    cases hschema with
    | bool value =>
        cases value with
        | false => rfl
        | true => exact absurd rfl hfalsy
    | object => exact absurd rfl hfalsy
  rw [schemaObjectKeys]
  split_ifs with htruthy
  · rcases hresult : (workedKeys maxSchemaWork schema).result
      (.start maxCompactDiscoverySchemaBytes) with ⟨fault | found, after⟩
    · constructor
      · intro hkeys
        cases hkeys
      · rintro ⟨after, hrun⟩
        rw [Runs, hresult] at hrun
        cases hrun
    · constructor
      · rintro rfl
        exact ⟨after, hresult⟩
      · rintro ⟨after', hrun⟩
        rw [Runs, hresult] at hrun
        exact Except.ok.inj (Prod.mk.inj hrun).1
  · constructor
    · intro hkeys
      cases hkeys
    · rintro ⟨after, hrun⟩
      exact absurd hrun (not_runs_objectKeys (.inr ⟨false, hfalse htruthy⟩))

/-- A description that is complete is the first rendering. -/
theorem boundedCompactSchema_complete {schema : Json} {typescript : Bool}
    (hcomplete : (boundedCompactSchema schema true typescript).truncated = false) :
    ∃ rendering work, firstRendering schema true typescript = (.ok rendering, work) ∧
      work.truncated = false ∧
        (boundedCompactSchema schema true typescript).text = rendering.text := by
  rw [boundedCompactSchema] at hcomplete ⊢
  rcases hfirst : firstRendering schema true typescript with ⟨fault | rendering, work⟩
  · rw [hfirst] at hcomplete
    simp at hcomplete
  · rw [hfirst] at hcomplete
    exact ⟨rendering, work, rfl, hcomplete, rfl⟩

/-- The keys that are found are those of the rendering, and keys are found unless the rendering
is no object type and no intersection of object types, or the walk for them passes a union or
ends at its limits. -/
theorem schemaObjectKeys_twins {schema : Json} (hschema : IsSchema schema)
    (hcomplete : (boundedCompactSchema schema true false).truncated = false) :
    ∃ rendering work, firstRendering schema true false = (.ok rendering, work) ∧
      (boundedCompactSchema schema true false).text = rendering.text ∧
      Prints rendering.shape rendering.text ∧
      (∀ keys, schemaObjectKeys (some schema) = some keys →
        ∃ names, rendering.shape.names = some names ∧ Matches keys names) ∧
      (schemaObjectKeys (some schema) = none ↔
        rendering.shape.names = none ∨ ¬KeysWithin schema) := by
  obtain ⟨rendering, work, hrendering, huntruncated, htext⟩ :=
    boundedCompactSchema_complete hcomplete
  obtain ⟨hprints, fuel, hnames⟩ := firstRendering_renders hrendering huntruncated
  have hfound (keys : SchemaObjectKeys) (hkeys : schemaObjectKeys (some schema) = some keys) :
      ∃ told : Told, told.keys = keys ∧ rendering.shape.names = some told.names ∧
        Matches told.keys told.names ∧ KeysWithin schema := by
    obtain ⟨after, hrun⟩ := (schemaObjectKeys_eq_some hschema).mp hkeys
    obtain ⟨told, hsame, htells, hspent⟩ := findsTold hschema maxSchemaWork _ _ _ hschema _ _ _ hrun
    exact ⟨told, hsame, topNames_unique hnames htells.names, htells.keys, told.charges,
      htells.charges, hspent.1, hspent.2.1⟩
  refine ⟨rendering, work, hrendering, htext, hprints, ?_, ?_⟩
  · intro keys hkeys
    obtain ⟨told, rfl, hshape, hmatches, _⟩ := hfound keys hkeys
    exact ⟨told.names, hshape, hmatches⟩
  · constructor
    · intro hnone
      rw [or_iff_not_imp_left]
      rintro hshape ⟨charges, hcharges, hvisits, htexts⟩
      obtain ⟨names, hsome⟩ := Option.ne_none_iff_exists'.mp hshape
      rw [hsome] at hnames
      obtain ⟨keys, hrun⟩ := findsKeys hschema maxSchemaWork _ _ _ hschema _ _ _
        (.start maxCompactDiscoverySchemaBytes) _ hcharges hnames ⟨hvisits, htexts, rfl⟩
      rw [(schemaObjectKeys_eq_some hschema).mpr ⟨_, hrun⟩] at hnone
      cases hnone
    · intro hfails
      cases hkeys : schemaObjectKeys (some schema) with
      | none => rfl
      | some keys =>
          obtain ⟨told, _, hshape, _, hwithin⟩ := hfound keys hkeys
          rcases hfails with hnone | hlimits
          · rw [hnone] at hshape
            cases hshape
          · exact absurd hwithin hlimits

/-- A required string beside one that is optional. -/
def namedPerson : Json :=
  .object [(ofAscii "type", .string (ofAscii "object")),
    (ofAscii "properties", .object
      [(ofAscii "name", .object [(ofAscii "type", .string (ofAscii "string"))]),
        (ofAscii "nick", .object [(ofAscii "type", .string (ofAscii "string"))])]),
    (ofAscii "required", .array [.string (ofAscii "name")])]

/-- A schema without `allOf` and definitions. -/
theorem isSchema_plain {members : List (JsString × Json)}
    (hproperties : ∀ value, keyword (.object members) "properties" = some value →
      ∃ properties, value = .object properties ∧ (properties.map Prod.fst).Nodup)
    (habsent : ∀ name ∈ ["allOf", "definitions", "$defs"],
      keyword (.object members) name = none) : IsSchema (.object members) := by
  apply IsSchema.object hproperties
  · intro elements helements
    rw [habsent "allOf" List.mem_cons_self] at helements
    cases helements
  · intro name hname value hvalue
    rw [habsent name (List.mem_cons_of_mem _ hname)] at hvalue
    cases hvalue
  · intro name hname table htable
    rw [habsent name (List.mem_cons_of_mem _ hname)] at htable
    cases htable

theorem isSchema_namedPerson : IsSchema namedPerson := by
  apply isSchema_plain
  · intro value hvalue
    obtain rfl := Option.some.inj hvalue
    exact ⟨_, rfl, by decide⟩
  · intro name hname
    fin_cases hname <;> rfl

theorem schemaObjectKeys_twins_person :
    ∃ rendering work, firstRendering namedPerson true false = (.ok rendering, work) ∧
      (boundedCompactSchema namedPerson true false).text = rendering.text ∧
      Prints rendering.shape rendering.text ∧
      (∀ keys, schemaObjectKeys (some namedPerson) = some keys →
        ∃ names, rendering.shape.names = some names ∧ Matches keys names) ∧
      (schemaObjectKeys (some namedPerson) = none ↔
        rendering.shape.names = none ∨ ¬KeysWithin namedPerson) :=
  schemaObjectKeys_twins isSchema_namedPerson rfl

/-- A union of one member. -/
def unionOfOne : Json :=
  .object [(ofAscii "oneOf", .array
    [.object [(ofAscii "type", .string (ofAscii "object")),
      (ofAscii "properties", .object
        [(ofAscii "a", .object [(ofAscii "type", .string (ofAscii "string"))])])]])]

/-- A union of one member renders as an object type, and has no keys. -/
theorem not_twins_unionOfOne :
    ¬∀ schema rendering work, IsSchema schema →
      (boundedCompactSchema schema true false).truncated = false →
        firstRendering schema true false = (.ok rendering, work) →
          (∀ keys, schemaObjectKeys (some schema) = some keys →
            ∃ names, rendering.shape.names = some names ∧ Matches keys names) ∧
          (schemaObjectKeys (some schema) = none → rendering.shape.names = none) := by
  intro htwins
  have hschema : IsSchema unionOfOne := by
    apply isSchema_plain
    · intro value hvalue
      cases hvalue
    · intro name hname
      fin_cases hname <;> rfl
  have hrendering : firstRendering unionOfOne true false =
      (.ok ⟨ofAscii "{ a?: string }", .object [(ofAscii "a", true)]⟩,
        (firstRendering unionOfOne true false).2) := Prod.ext rfl rfl
  have hnames := (htwins _ _ _ hschema rfl hrendering).2 (by decide +kernel)
  cases hnames

end Connecta.Catalog
