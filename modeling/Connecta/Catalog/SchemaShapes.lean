import Connecta.Catalog.SchemaKeys

/-!
# What a schema renders as

The keys at the top level of what a schema renders as, told from the schema alone, and the texts
in which an object type or an intersection is written.
-/

namespace Connecta.Catalog

open Connecta.Foundation
open Connecta.Runtime
open Connecta.Runtime.JsString (ofAscii utf8)

/-! ## Shapes -/

/-- The keys of some parts, where each of them has some. -/
def joinNames (parts : List (Option (List (JsString × Bool)))) :
    Option (List (JsString × Bool)) :=
  if parts ≠ [] ∧ parts.all (·.isSome) then some (parts.filterMap id).flatten else none

mutual

/-- The keys at the top level of an object type or an intersection of them. -/
def Shape.names : Shape → Option (List (JsString × Bool))
  | .object names => some names
  | .intersection parts => joinNames (namesOfShapes parts)
  | .other => none

def namesOfShapes : List Shape → List (Option (List (JsString × Bool)))
  | [] => []
  | part :: rest => part.names :: namesOfShapes rest

end

theorem namesOfShapes_eq (shapes : List Shape) : namesOfShapes shapes = shapes.map Shape.names := by
  induction shapes with
  | nil => rfl
  | cons shape rest ih => rw [namesOfShapes, ih, List.map_cons]

theorem joinNames_singleton (names : Option (List (JsString × Bool))) :
    joinNames [names] = names := by
  cases names with
  | none => rfl
  | some names => simp [joinNames]

theorem names_shapeOfParts (shapes : List Shape) :
    (shapeOfParts shapes).names = joinNames (shapes.map Shape.names) := by
  match shapes with
  | [] => rfl
  | [shape] => exact (joinNames_singleton shape.names).symm
  | first :: second :: rest =>
      rw [shapeOfParts, Shape.names, namesOfShapes_eq]
      · simp
      · exact fun _ hsingle => absurd (List.cons.inj hsingle).2 (List.cons_ne_nil _ _)

/-- A member of an object type, with what stands behind its colon. -/
def printedMember (member : JsString × Bool × JsString) : JsString :=
  member.1 ++ (if member.2.1 then ofAscii "?" else []) ++ ofAscii ": " ++ member.2.2

/-- A text writes a shape. -/
inductive Prints : Shape → JsString → Prop where
  | empty : Prints (.object []) [0x7B, 0x7D]
  | object (members : List (JsString × Bool × JsString)) :
      Prints (.object (members.map fun member => (member.1, member.2.1)))
        ([0x7B, space] ++ (ofAscii ", ").intercalate (members.map printedMember) ++ [space, 0x7D])
  | intersection (parts : List (Shape × JsString)) (htwo : 2 ≤ parts.length)
      (hparts : ∀ part ∈ parts, Prints part.1 part.2) :
      Prints (.intersection (parts.map Prod.fst))
        ((ofAscii " & ").intercalate (parts.map Prod.snd))
  | parenthesized {shape : Shape} {text : JsString} (hprints : Prints shape text) :
      Prints shape (parenthesized text)
  | remarked {shape : Shape} {text : JsString} (remark : JsString) (hprints : Prints shape text) :
      Prints shape (text ++ (ofAscii " /* " ++ remark ++ ofAscii " */"))
  | other (text : JsString) : Prints .other text

theorem Prints.grouped {shape : Shape} {text : JsString} (hprints : Prints shape text) :
    Prints shape (grouped text) := by
  rw [Catalog.grouped]
  split_ifs
  · exact hprints.parenthesized
  · exact hprints

theorem length_intercalate_pos {separator : JsString} (hseparator : separator ≠ [])
    {parts : List JsString} (htwo : 2 ≤ parts.length) : separator.intercalate parts ≠ [] := by
  match parts, htwo with
  | first :: second :: rest, _ =>
      rw [List.intercalate_cons_cons]
      exact List.append_ne_nil_of_left_ne_nil (List.append_ne_nil_of_right_ne_nil _ hseparator) _

/-- No object type and no intersection is written without a text. -/
theorem Prints.ne_nil {shape : Shape} {text : JsString} (hprints : Prints shape text)
    (hshape : shape ≠ .other) : text ≠ [] := by
  cases hprints with
  | empty => exact List.cons_ne_nil _ _
  | object members => exact List.cons_ne_nil _ _
  | intersection parts htwo hparts =>
      exact length_intercalate_pos (by decide) (by rw [List.length_map]; exact htwo)
  | parenthesized hprints => exact List.cons_ne_nil _ _
  | remarked remark hprints => exact List.append_ne_nil_of_right_ne_nil _ (List.cons_ne_nil _ _)
  | other => exact absurd rfl hshape

/-! ## The keys of a schema -/

def requiredNames (schema : Json) : List JsString :=
  ((elementsOf (keyword schema "required")).getD []).filterMap fun name => stringOf (some name)

/-- The keys of an object schema, each with whether it is given a `?`. -/
def ownNames (schema : Json) : List (JsString × Bool) :=
  (enumerable (propertiesOf schema)).map fun property =>
    (property.1, !(requiredNames schema).contains property.1)

/-- A schema without others to compose that is rendered as an object type. -/
def objectNode (schema : Json) : Bool :=
  (elementsOf (keyword schema "enum")).isNone && (keyword schema "const").isNone &&
    (elementsOf (keyword schema "prefixItems")).isNone &&
    !(hasType schema "array" || truthy (keyword schema "items")) &&
    (hasType schema "object" || truthy (keyword schema "properties"))

/-- The keys of each part, where each is told. -/
def partNames {Names : Type} (namesOf : ℕ → Json → Option Names) :
    List (ℕ × Json) → Option (List Names)
  | [] => some []
  | part :: rest =>
      (namesOf part.1 part.2).bind fun names => (partNames namesOf rest).map (names :: ·)

theorem partNames_eq_some {Names : Type} {namesOf : ℕ → Json → Option Names}
    {parts : List (ℕ × Json)} {found : List Names} :
    partNames namesOf parts = some found ↔
      List.Forall₂ (fun part names => namesOf part.1 part.2 = some names) parts found := by
  induction parts generalizing found with
  | nil =>
      rw [partNames, Option.some.injEq, List.forall₂_nil_left_iff]
      exact eq_comm
  | cons part rest ih =>
      rw [partNames, Option.bind_eq_some_iff, List.forall₂_cons_left_iff]
      constructor
      · rintro ⟨names, hnames, hrest⟩
        obtain ⟨more, hmore, rfl⟩ := Option.map_eq_some_iff.mp hrest
        exact ⟨names, more, hnames, ih.mp hmore, rfl⟩
      · rintro ⟨names, more, hnames, hmore, rfl⟩
        exact ⟨names, hnames, Option.map_eq_some_iff.mpr ⟨more, ih.mpr hmore, rfl⟩⟩

/-- The keys at the top level of what a schema renders as, where it renders without conditions:
through the parts of an intersection, references and unions of one member. -/
def topNames (defs : Json) : ℕ → List JsString → ℕ → Json →
    Option (Option (List (JsString × Bool)))
  | 0, _, _, _ => none
  | fuel + 1, seen, depth, schema =>
      if 4 < depth then some none
      else
        match elementsOf (keyword schema "allOf") with
        | some members =>
            (partNames (topNames defs fuel seen)
              (allOfParts (without schema ["allOf"]) depth members)).map joinNames
        | none =>
        match referenceOf schema with
        | some (reference, dynamic) =>
            let name := referenceName reference dynamic
            if name ∈ seen then some none
            else
              match resolveDefinition defs name with
              | none => some none
              | some target => topNames defs fuel (seen ++ [name]) depth target
        | none =>
        match unionOf schema with
        | some [member] => topNames defs fuel seen (depth + 1) member
        | some _ => some none
        | none => some (if objectNode schema then some (ownNames schema) else none)

section

variable {defs : Json} {fuel : ℕ} {seen : List JsString} {depth : ℕ} {schema : Json}

theorem topNames_deep (hdepth : 4 < depth) :
    topNames defs (fuel + 1) seen depth schema = some none := by
  rw [topNames, if_pos hdepth]

variable (hdepth : ¬4 < depth)
include hdepth

theorem topNames_allOf {members : List Json}
    (hallOf : elementsOf (keyword schema "allOf") = some members) :
    topNames defs (fuel + 1) seen depth schema =
      (partNames (topNames defs fuel seen)
        (allOfParts (without schema ["allOf"]) depth members)).map joinNames := by
  rw [topNames, if_neg hdepth, hallOf]

variable (hallOf : elementsOf (keyword schema "allOf") = none)
include hallOf

theorem topNames_reference {reference : JsString} {dynamic : Bool}
    (hreference : referenceOf schema = some (reference, dynamic)) :
    topNames defs (fuel + 1) seen depth schema =
      if referenceName reference dynamic ∈ seen then some none
      else
        match resolveDefinition defs (referenceName reference dynamic) with
        | none => some none
        | some target =>
            topNames defs fuel (seen ++ [referenceName reference dynamic]) depth target := by
  rw [topNames, if_neg hdepth, hallOf]
  dsimp only
  rw [hreference]

variable (hreference : referenceOf schema = none)
include hreference

theorem topNames_single {member : Json} (hunion : unionOf schema = some [member]) :
    topNames defs (fuel + 1) seen depth schema =
      topNames defs fuel seen (depth + 1) member := by
  rw [topNames, if_neg hdepth, hallOf]
  dsimp only
  rw [hreference]
  dsimp only
  rw [hunion]

theorem topNames_union {members : List Json} (hunion : unionOf schema = some members)
    (hmembers : members.length ≠ 1) :
    topNames defs (fuel + 1) seen depth schema = some none := by
  rw [topNames, if_neg hdepth, hallOf]
  dsimp only
  rw [hreference]
  dsimp only
  rw [hunion]
  match members with
  | [] => rfl
  | [member] => exact absurd rfl hmembers
  | first :: second :: rest => rfl

theorem topNames_shape (hunion : unionOf schema = none) :
    topNames defs (fuel + 1) seen depth schema =
      some (if objectNode schema then some (ownNames schema) else none) := by
  rw [topNames, if_neg hdepth, hallOf]
  dsimp only
  rw [hreference]
  dsimp only
  rw [hunion]

end

/-- A schema without keywords has no keys. -/
theorem topNames_leaf {defs : Json} {seen : List JsString} {depth : ℕ} {schema : Json}
    (hdepth : ¬4 < depth) (hschema : ∀ name, keyword schema name = none) :
    topNames defs (0 + 1) seen depth schema = some none := by
  have hallOf : elementsOf (keyword schema "allOf") = none := by
    rw [hschema]
    rfl
  have hreference : referenceOf schema = none := by
    rw [referenceOf, hschema, hschema]
    rfl
  have hunion : unionOf schema = none := by
    rw [unionOf, hschema, hschema]
    rfl
  have hnode : objectNode schema = false := by
    simp [objectNode, hasType, hschema, stringOf, truthy]
  rw [topNames_shape hdepth hallOf hreference hunion, hnode]
  rfl

/-- A longer walk finds what a shorter one found. -/
theorem topNames_succ {defs : Json} {fuel : ℕ} {seen : List JsString} {depth : ℕ} {schema : Json}
    {names : Option (List (JsString × Bool))}
    (hnames : topNames defs fuel seen depth schema = some names) :
    topNames defs (fuel + 1) seen depth schema = some names := by
  induction fuel generalizing seen depth schema names with
  | zero => cases hnames
  | succ fuel ih =>
      have hparts (parts : List (ℕ × Json)) (found : List (Option (List (JsString × Bool))))
          (hfound : partNames (topNames defs fuel seen) parts = some found) :
          partNames (topNames defs (fuel + 1) seen) parts = some found := by
        rw [partNames_eq_some] at hfound ⊢
        exact hfound.imp fun _ _ => ih
      by_cases hdepth : 4 < depth
      · rw [topNames_deep hdepth] at hnames ⊢
        exact hnames
      cases hallOf : elementsOf (keyword schema "allOf") with
      | some members =>
          rw [topNames_allOf hdepth hallOf] at hnames ⊢
          obtain ⟨found, hfound, rfl⟩ := Option.map_eq_some_iff.mp hnames
          exact Option.map_eq_some_iff.mpr ⟨found, hparts _ found hfound, rfl⟩
      | none =>
          cases hreference : referenceOf schema with
          | some reference =>
              obtain ⟨reference, dynamic⟩ := reference
              rw [topNames_reference hdepth hallOf hreference] at hnames ⊢
              split_ifs at hnames ⊢
              · exact hnames
              · cases htarget : resolveDefinition defs (referenceName reference dynamic) with
                | none =>
                    rw [htarget] at hnames
                    exact hnames
                | some target =>
                    rw [htarget] at hnames
                    exact ih hnames
          | none =>
              cases hunion : unionOf schema with
              | some members =>
                  by_cases hmembers : members.length = 1
                  · obtain ⟨member, rfl⟩ := List.length_eq_one_iff.mp hmembers
                    rw [topNames_single hdepth hallOf hreference hunion] at hnames ⊢
                    exact ih hnames
                  · rw [topNames_union hdepth hallOf hreference hunion hmembers] at hnames ⊢
                    exact hnames
              | none =>
                  rw [topNames_shape hdepth hallOf hreference hunion] at hnames ⊢
                  exact hnames

theorem topNames_le {defs : Json} {fuel more : ℕ} (hle : fuel ≤ more) {seen : List JsString}
    {depth : ℕ} {schema : Json} {names : Option (List (JsString × Bool))}
    (hnames : topNames defs fuel seen depth schema = some names) :
    topNames defs more seen depth schema = some names := by
  induction hle with
  | refl => exact hnames
  | step _ ih => exact topNames_succ ih

end Connecta.Catalog
