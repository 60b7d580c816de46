import Connecta.Catalog.SchemaShapes
import Connecta.Catalog.SchemaSpending

/-!
# Renderings write shapes

A rendering in the compact notation that left nothing out writes the shape beside it, and the
keys of that shape are those the schema tells.  What a walk remembers of a definition is such a
rendering.
-/

namespace Connecta.Catalog

open Connecta.Foundation
open Connecta.Foundation.Faulty
open Connecta.Runtime
open Connecta.Runtime.JsString (ofAscii utf8)
open Connecta.Results (decimal ofDecimal ofDecimal_decimal)
open SchemaWalk

section

variable (defs : Json)

/-- A rendering writes its shape, and has the keys of the schema. -/
def Renders (seen : List JsString) (depth : ℕ) (schema : Json) (rendered : Rendering) : Prop :=
  Prints rendered.shape rendered.text ∧
    ∃ fuel, topNames defs fuel seen depth schema = some rendered.shape.names

/-- What is remembered of a definition is a rendering of it. -/
def Remembers (work : SchemaWork) : Prop :=
  ∀ name depth seen target rendered, depth ≤ 4 → resolveDefinition defs name = some target →
    work.refs.get? (cacheKey name depth seen) = some rendered →
      Renders defs (seen ++ [name]) depth target rendered

/-- A part of a walk that left nothing out answers so. -/
abbrev Walks {Answer : Type} (pre : Prop) (program : SchemaWalk Answer)
    (post : Answer → Prop) : Prop :=
  Safe (fun work : SchemaWork => work.truncated = true) (Remembers defs) pre program post

variable {defs} {pre : Prop} {Answer : Type}

theorem Spends.walks {program : SchemaWalk Answer} (hspends : Spends program)
    {post : Answer → Prop}
    (hpost : ∀ state answer after, Runs program state answer after → pre → post answer) :
    Walks defs pre program post := by
  apply safe_of_unchanged _ _ hpost
  · intro state htruncated
    exact (hspends state).1.trans htruncated
  · intro state hremembers name depth seen target rendered hdepth htarget hfound
    rw [(hspends state).2] at hfound
    exact hremembers name depth seen target rendered hdepth htarget hfound

theorem Spends.walks_true {program : SchemaWalk Answer} (hspends : Spends program) :
    Walks defs pre program fun _ => True :=
  hspends.walks fun _ _ _ _ _ => trivial

/-- Nothing is told of what comes after something was left out. -/
theorem walks_truncate : Walks defs pre truncate fun _ => False := by
  intro state answer after hrun hdown
  obtain rfl := runs_modify.mp hrun
  exact absurd rfl hdown

theorem walks_text (value : JsString) : Walks defs pre (text value) (· = value) :=
  (spends_text value).walks fun _ _ _ hrun _ => (runs_text.mp hrun).1

theorem walks_add (parts : Parts) (part : JsString) :
    Walks defs pre (parts.add part) fun added =>
      added.separator = parts.separator ∧ added.parts = parts.parts ++ [part] := by
  apply (spends_add parts part).walks
  intro state answer after hrun _
  obtain ⟨work, middle, _, hadded⟩ := runs_bind.mp hrun
  dsimp only at hadded
  by_cases hlarge : work.byteLimit < parts.bytes + (part.utf8.length +
      if parts.parts = [] then 0 else parts.separator.utf8.length)
  · rw [if_pos hlarge] at hadded
    exact absurd hadded not_runs_throw
  · rw [if_neg hlarge] at hadded
    obtain ⟨rfl, _⟩ := runs_pure.mp hadded
    exact ⟨rfl, rfl⟩

theorem walks_schemaRequired (schema : Json) :
    Walks defs pre (schemaRequired schema) (· = requiredNames schema) := by
  apply (spends_schemaRequired schema).walks
  intro state answer after hrun _
  rw [schemaRequired] at hrun
  rw [requiredNames]
  cases hrequired : elementsOf (keyword schema "required") with
  | some required =>
      rw [hrequired] at hrun
      exact (runs_requiredFrom.mp hrun).1
  | none =>
      rw [hrequired] at hrun
      exact (runs_pure.mp hrun).1.symm

/-! ## Enums and constraints -/

theorem walks_renderEnumFrom (limit : ℕ) (kept : List JsString) (rendered : JsString)
    (values : List Json) :
    Walks defs pre (renderEnumFrom limit kept rendered values) fun _ => True := by
  induction values generalizing kept rendered pre with
  | nil => exact walks_truncate.bind fun _ => safe_pure fun _ => trivial
  | cons value rest ih =>
      rw [renderEnumFrom]
      apply (spends_json? value).walks_true.bind
      intro found
      cases found with
      | none => exact walks_truncate.bind fun _ => safe_pure fun _ => trivial
      | some found =>
          dsimp only
          split_ifs
          · exact walks_truncate.bind fun _ => safe_pure fun _ => trivial
          · exact (spends_ungroupIf _ _).walks_true.bind fun _ => safe_pure fun _ => trivial
          · exact ih _ _
          · exact ih _ _

theorem walks_renderEnum (values : List Json) (limit : ℕ) :
    Walks defs pre (renderEnum values limit) fun _ => True := by
  rw [renderEnum]
  split_ifs
  · exact safe_pure fun _ => trivial
  · exact walks_renderEnumFrom limit [] _ values

theorem walks_keepEntries (limit : ℕ) (kept entries : List JsString) :
    Walks defs pre (keepEntries limit kept entries) fun _ => True := by
  induction entries generalizing kept pre with
  | nil => exact safe_pure fun _ => trivial
  | cons entry rest ih =>
      rw [keepEntries]
      split_ifs
      · exact walks_truncate.bind fun _ => ih kept
      · exact ih (kept ++ [entry])

/-- Constraints leave a text as it is, or group it and stand behind it as a remark. -/
theorem walks_renderConstraints (base : JsString) (schema : Json) (limit : ℕ) :
    Walks defs pre (renderConstraints base schema limit) fun result =>
      ∀ shape, Prints shape base → Prints shape result := by
  apply (walks_keepEntries limit [] (constraintEntries schema)).bind
  intro kept
  split_ifs
  · exact safe_pure fun _ _ hprints => hprints
  · exact safe_pure fun _ _ hprints => hprints.grouped.remarked _

variable {options : RenderOptions}

theorem walks_constrain (schema : Json) (rendered : Rendering) :
    Walks defs pre (constrain options schema rendered) fun result =>
      result.shape = rendered.shape ∧
        (Prints rendered.shape rendered.text → Prints result.shape result.text) := by
  rw [constrain]
  split_ifs
  · exact safe_pure fun _ => ⟨rfl, id⟩
  · apply (walks_renderConstraints rendered.text schema options.constraintByteLimit).bind
    intro result
    apply (spends_isUngrouped rendered.text).walks_true.bind
    intro bare
    apply (spends_ungroupIf _ result).walks_true.bind
    intro _
    exact safe_pure fun hresult => ⟨rfl, hresult.1.1.2 rendered.shape⟩

/-- A text that is neither an object type nor an intersection stays so. -/
theorem walks_constrain_plain (schema : Json) (text : JsString) :
    Walks defs pre (constrain options schema (plain text)) fun result => result.shape = .other :=
  (walks_constrain schema (plain text)).weaken id fun _ _ hresult => hresult.1

/-! ## What is remembered -/

theorem valid_cacheKey (name : JsString) {depth : ℕ} (hdepth : depth ≤ 4)
    (seen : List JsString) :
    Json.Valid (.array [.string name, .number (decimal depth), .array (seen.map Json.string)]) := by
  have hlexeme : ∀ depth < 5,
      Json.numberLexeme (decimal depth) = some (decimal depth, []) := by decide
  apply Json.Valid.array
  intro element helement
  simp only [List.mem_cons, List.not_mem_nil, or_false] at helement
  rcases helement with rfl | rfl | rfl
  · exact .string name
  · exact .number (hlexeme depth (Nat.lt_succ_of_le hdepth))
  · apply Json.Valid.array
    intro element helement
    obtain ⟨text, _, rfl⟩ := List.mem_map.mp helement
    exact .string text

/-- A key is read by one name, one depth and the names around it. -/
theorem cacheKey_injective {left right : JsString} {depth depth' : ℕ} (hleft : depth ≤ 4)
    (hright : depth' ≤ 4) {lefts rights : List JsString}
    (hkey : cacheKey left depth lefts = cacheKey right depth' rights) :
    left = right ∧ depth = depth' ∧ lefts = rights := by
  have hjson := Json.stringify_injective (valid_cacheKey left hleft lefts)
    (valid_cacheKey right hright rights) hkey
  simp only [Json.array.injEq, List.cons.injEq, Json.string.injEq, Json.number.injEq,
    and_true] at hjson
  obtain ⟨hname, hdepth, hseen⟩ := hjson
  have hof : ofDecimal (decimal depth) = ofDecimal (decimal depth') := congrArg ofDecimal hdepth
  rw [ofDecimal_decimal, ofDecimal_decimal] at hof
  refine ⟨hname, hof, ?_⟩
  exact List.map_injective_iff.mpr (fun _ _ => Json.string.inj) hseen

theorem Remembers.set {work : SchemaWork} (hremembers : Remembers defs work) {name : JsString}
    {depth : ℕ} {seen : List JsString} {target : Json} {rendered : Rendering}
    (hdepth : depth ≤ 4) (htarget : resolveDefinition defs name = some target)
    (hrenders : Renders defs (seen ++ [name]) depth target rendered) :
    Remembers defs { work with refs := work.refs.set (cacheKey name depth seen) rendered } := by
  intro other depth' seen' target' rendered' hdepth' htarget' hfound
  dsimp only at hfound
  rw [OrderedMap.get?_set] at hfound
  split_ifs at hfound with hkey
  · obtain rfl := Option.some.inj hfound
    obtain ⟨rfl, rfl, rfl⟩ := cacheKey_injective hdepth' hdepth hkey
    obtain rfl := Option.some.inj (htarget'.symm.trans htarget)
    exact hrenders
  · exact hremembers other depth' seen' target' rendered' hdepth' htarget' hfound

/-! ## Parts -/

theorem prints_shapeOfParts {parts : List (Shape × JsString)} (hne : parts ≠ [])
    (hprints : ∀ part ∈ parts, Prints part.1 part.2) :
    Prints (shapeOfParts (parts.map Prod.fst))
      ((ofAscii " & ").intercalate (parts.map Prod.snd)) := by
  match parts with
  | [] => exact absurd rfl hne
  | [part] =>
      rw [List.map_singleton, List.map_singleton, List.intercalate_singleton]
      exact hprints part List.mem_cons_self
  | first :: second :: rest =>
      have htwo : 2 ≤ (first :: second :: rest).length := Nat.le_add_left 2 _
      exact .intersection _ htwo hprints

/-- A schema that renders as neither an object type nor an intersection. -/
theorem renders_other {seen : List JsString} {depth fuel : ℕ} {schema : Json}
    {rendered : Rendering} (hshape : rendered.shape = .other)
    (hnames : topNames defs fuel seen depth schema = some none) :
    Renders defs seen depth schema rendered := by
  rw [Renders, hshape]
  exact ⟨Prints.other _, fuel, hnames⟩

variable {render : List JsString → ℕ → Json → SchemaWalk Rendering}

theorem group_compact (hcompact : options.typescript = false) (text : JsString) :
    group options text = grouped text := by
  rw [group, hcompact]
  rfl

theorem partNames_le {fuel more : ℕ} (hle : fuel ≤ more) {seen : List JsString}
    {parts : List (ℕ × Json)} {found : List (Option (List (JsString × Bool)))}
    (hfound : partNames (topNames defs fuel seen) parts = some found) :
    partNames (topNames defs more seen) parts = some found := by
  rw [partNames_eq_some] at hfound ⊢
  exact hfound.imp fun _ _ => topNames_le hle

section

variable (hrender : ∀ seen depth schema,
  Walks defs True (render seen depth schema) (Renders defs seen depth schema))
variable (hcompact : options.typescript = false)
include hrender hcompact

theorem walks_renderParts (grouping : Bool) (seen : List JsString) (parts : Parts)
    (shapes : List Shape) (pending : List (ℕ × Json)) :
    Walks defs pre (renderParts options render grouping seen parts shapes pending) fun result =>
      ∃ added : List (Shape × JsString), result.1.separator = parts.separator ∧
        result.1.parts = parts.parts ++ added.map Prod.snd ∧
        result.2 = shapes ++ added.map Prod.fst ∧ (∀ part ∈ added, Prints part.1 part.2) ∧
        ∃ fuel, partNames (topNames defs fuel seen) pending =
          some (added.map fun part => part.1.names) := by
  induction pending generalizing parts shapes pre with
  | nil =>
      apply safe_pure
      intro _
      refine ⟨[], rfl, (List.append_nil _).symm, (List.append_nil _).symm, ?_, 0, rfl⟩
      exact fun part hpart => absurd hpart List.not_mem_nil
  | cons part rest ih =>
      obtain ⟨depth, member⟩ := part
      rw [renderParts]
      apply ((hrender seen depth member).weaken (fun _ => trivial) fun _ _ => id).bind
      intro rendered
      apply (walks_add parts _).bind
      intro parts'
      apply (ih parts' _).weaken id
      intro hpre result hresult
      obtain ⟨added, hseparator, htexts, hshapes, hprints, fuel, hnames⟩ := hresult
      obtain ⟨⟨_, hrendered, fuel', hmember⟩, hseparator', hadded⟩ := hpre
      have hgroup : Prints rendered.shape
          (if grouping then group options rendered.text else rendered.text) := by
        rw [group_compact hcompact]
        split_ifs
        · exact hrendered.grouped
        · exact hrendered
      refine ⟨(rendered.shape, if grouping then group options rendered.text
        else rendered.text) :: added, hseparator.trans hseparator', ?_, ?_, ?_,
        max fuel fuel', ?_⟩
      · rw [htexts, hadded, List.append_assoc]
        rfl
      · rw [hshapes, List.append_assoc]
        rfl
      · rw [List.forall_mem_cons]
        exact ⟨hgroup, hprints⟩
      · rw [partNames, topNames_le (le_max_right fuel fuel') hmember,
          partNames_le (le_max_left fuel fuel') hnames]
        rfl

theorem walks_renderAllOf {members : List Json} {seen : List JsString} {depth : ℕ}
    {schema : Json} (hdepth : ¬4 < depth)
    (hallOf : elementsOf (keyword schema "allOf") = some members) :
    Walks defs pre (renderAllOf options render members seen depth schema)
      (Renders defs seen depth schema) := by
  rw [renderAllOf]
  apply (spends_propertyNames schema).walks_true.bind
  intro _
  apply (walks_renderParts hrender hcompact _ seen _ [] _).bind
  rintro ⟨parts, shapes⟩
  dsimp only
  split_ifs with hempty
  · apply safe_pure
    rintro ⟨_, added, _, hparts, _, _, fuel, hnames⟩
    have hadded : added = [] := List.map_eq_nil_iff.mp (hparts.symm.trans hempty)
    refine ⟨Prints.other _, fuel + 1, ?_⟩
    rw [topNames_allOf hdepth hallOf, hnames, hadded]
    rfl
  · apply (spends_ungroupIf _ _).walks_true.bind
    intro _
    apply safe_pure
    rintro ⟨⟨_, added, hseparator, hparts, hshapes, hprints, fuel, hnames⟩, _⟩
    have hadded : added ≠ [] := by
      rintro rfl
      exact hempty hparts
    refine ⟨?_, fuel + 1, ?_⟩
    · rw [Parts.finish, hseparator, hparts, hshapes, List.append_nil]
      exact prints_shapeOfParts hadded hprints
    · rw [topNames_allOf hdepth hallOf, hnames, hshapes, Option.map_some]
      apply congrArg
      rw [List.nil_append, names_shapeOfParts, List.map_map]
      rfl

/-! ## References -/

omit hcompact in
/-- A definition that is remembered was rendered, and one that is not is rendered now. -/
theorem walks_renderTarget {name : JsString} {target : Json} {seen : List JsString} {depth : ℕ}
    (hdepth : depth ≤ 4) (htarget : resolveDefinition defs name = some target) :
    Walks defs pre (renderTarget render name target seen depth)
      (Renders defs (seen ++ [name]) depth target) := by
  intro state answer after hrun hdown
  obtain ⟨work, _, hget, hrun⟩ := runs_bind.mp hrun
  obtain ⟨rfl, rfl⟩ := runs_get.mp hget
  cases hfound : state.refs.get? (cacheKey name depth seen) with
  | some rendered =>
      rw [hfound] at hrun
      obtain ⟨rfl, rfl⟩ := runs_pure.mp hrun
      exact ⟨hdown, fun hstate _ => ⟨hstate, hstate name depth seen target _ hdepth htarget hfound⟩⟩
  | none =>
      rw [hfound] at hrun
      obtain ⟨rendered, middle, hrendered, hrun⟩ := runs_bind.mp hrun
      obtain ⟨_, _, hset, hrun⟩ := runs_bind.mp hrun
      obtain rfl := runs_modify.mp hset
      obtain ⟨rfl, rfl⟩ := runs_pure.mp hrun
      obtain ⟨hbefore, hkeeps⟩ := hrender _ _ _ state rendered middle hrendered hdown
      refine ⟨hbefore, fun hstate _ => ?_⟩
      obtain ⟨hmiddle, hrenders⟩ := hkeeps hstate trivial
      exact ⟨hmiddle.set hdepth htarget hrenders, hrenders⟩

theorem walks_renderReference {reference : JsString} {dynamic : Bool} {seen : List JsString}
    {depth : ℕ} {schema : Json} (hdepth : ¬4 < depth)
    (hallOf : elementsOf (keyword schema "allOf") = none)
    (hreference : referenceOf schema = some (reference, dynamic)) :
    Walks defs pre (renderReference options defs render reference dynamic seen depth schema)
      (Renders defs seen depth schema) := by
  rw [renderReference]
  apply (walks_text reference).bind
  intro kept
  simp only [hcompact, Bool.not_false, if_true, Bool.or_false, Bool.false_eq_true, if_false]
  by_cases hseen : referenceName kept dynamic ∈ seen
  · rw [if_pos hseen]
    apply safe_pure
    rintro ⟨_, rfl⟩
    refine renders_other rfl (?_ : topNames defs (0 + 1) seen depth schema = some none)
    rw [topNames_reference hdepth hallOf hreference, if_pos hseen]
  · rw [if_neg hseen]
    cases htarget : resolveDefinition defs (referenceName kept dynamic) with
    | none =>
        cases dynamic with
        | true =>
            apply walks_truncate.bind
            intro _
            exact safe_pure fun hpre => hpre.2.elim
        | false =>
            refine Safe.bind (safe_pure fun _ => trivial : Walks defs _ _ fun _ => True) ?_
            intro _
            apply safe_pure
            rintro ⟨⟨_, rfl⟩, _⟩
            refine renders_other rfl (?_ : topNames defs (0 + 1) seen depth schema = some none)
            rw [topNames_reference hdepth hallOf hreference, if_neg hseen, htarget]
    | some target =>
        apply (walks_renderTarget hrender (Nat.le_of_not_lt hdepth) htarget).bind
        intro rendered
        apply (walks_constrain schema rendered).weaken id
        rintro ⟨⟨_, rfl⟩, hprints, fuel, hnames⟩ result ⟨hshape, hresult⟩
        refine ⟨hresult hprints, fuel + 1, ?_⟩
        rw [topNames_reference hdepth hallOf hreference, if_neg hseen, htarget, hshape]
        exact hnames

end

/-! ## Unions -/

theorem walks_element (text : JsString) :
    Walks defs pre (element options text) fun _ => True := by
  rw [element]
  split_ifs
  · exact safe_pure fun _ => trivial
  · exact (spends_isUngrouped text).walks_true.bind fun _ => safe_pure fun _ => trivial

theorem SchemaWalk.Parts.finish_bare (parts : Parts) :
    parts.finish [] [] = parts.separator.intercalate parts.parts := List.append_nil _

/-- A member without a text is nothing that has keys. -/
theorem Prints.orUnknown {shape : Shape} {text : JsString} (hprints : Prints shape text) :
    Prints shape (if text = [] then ofAscii "unknown" else text) := by
  split_ifs with hempty
  · by_cases hshape : shape = .other
    · rw [hshape]
      exact .other _
    · exact absurd hempty (hprints.ne_nil hshape)
  · exact hprints

theorem shapeOfUnion_of_ne {shapes : List Shape} (hlength : shapes.length ≠ 1) :
    shapeOfUnion shapes = .other := by
  match shapes with
  | [] => rfl
  | [shape] => exact absurd rfl hlength
  | first :: second :: rest => rfl

theorem renderIndex_compact (hcompact : options.typescript = false) (additional : Option Json)
    (seen : List JsString) (depth : ℕ) :
    renderIndex options render additional seen depth = pure none := by
  unfold renderIndex
  rw [hcompact]
  split
  · rfl
  · rfl
  · rfl

section

variable (hrender : ∀ seen depth schema,
  Walks defs True (render seen depth schema) (Renders defs seen depth schema))
include hrender

theorem walks_renderMembers (seen : List JsString) (depth : ℕ) (parts : Parts)
    (shapes : List Shape) (pending : List Json) :
    Walks defs pre (renderMembers render seen depth parts shapes pending) fun result =>
      ∃ added : List (Shape × JsString), result.1.separator = parts.separator ∧
        result.1.parts = parts.parts ++ added.map Prod.snd ∧
        result.2 = shapes ++ added.map Prod.fst ∧
        List.Forall₂ (fun member part => Renders defs seen depth member ⟨part.2, part.1⟩)
          pending added := by
  induction pending generalizing parts shapes pre with
  | nil =>
      apply safe_pure
      intro _
      exact ⟨[], rfl, (List.append_nil _).symm, (List.append_nil _).symm, .nil⟩
  | cons member rest ih =>
      rw [renderMembers]
      apply ((hrender seen depth member).weaken (fun _ => trivial) fun _ _ => id).bind
      intro rendered
      apply (walks_add parts _).bind
      intro parts'
      apply (ih parts' _).weaken id
      intro hpre result hresult
      obtain ⟨added, hseparator, htexts, hshapes, hmembers⟩ := hresult
      obtain ⟨⟨_, hrendered⟩, hseparator', hadded⟩ := hpre
      refine ⟨(rendered.shape, rendered.text) :: added, hseparator.trans hseparator', ?_, ?_,
        .cons hrendered hmembers⟩
      · rw [htexts, hadded, List.append_assoc]
        rfl
      · rw [hshapes, List.append_assoc]
        rfl

/-- A union of one member renders as the member, and any other as no object type. -/
theorem walks_renderUnion {members : List Json} {seen : List JsString} {depth : ℕ}
    {schema : Json} (hdepth : ¬4 < depth)
    (hallOf : elementsOf (keyword schema "allOf") = none) (hreference : referenceOf schema = none)
    (hunion : unionOf schema = some members) :
    Walks defs pre (renderUnion options render members seen depth schema)
      (Renders defs seen depth schema) := by
  rw [renderUnion]
  apply (walks_renderMembers hrender seen (depth + 1) _ [] members).bind
  rintro ⟨parts, shapes⟩
  dsimp only
  apply (spends_ungroupIf _ _).walks_true.bind
  intro _
  apply (walks_constrain schema _).weaken id
  rintro ⟨⟨_, added, hseparator, hparts, hshapes, hmembers⟩, _⟩ result ⟨hshape, hresult⟩
  by_cases hsingle : members.length = 1
  · obtain ⟨member, rfl⟩ := List.length_eq_one_iff.mp hsingle
    obtain ⟨part, rest, ⟨hprints, fuel, hnames⟩, hrest, rfl⟩ :=
      List.forall₂_cons_left_iff.mp hmembers
    obtain rfl := List.forall₂_nil_left_iff.mp hrest
    dsimp only at hparts hshapes hresult hshape hprints hnames
    refine ⟨?_, fuel + 1, ?_⟩
    · apply hresult
      rw [Parts.finish_bare, hparts, hshapes]
      change Prints part.1 (if parts.separator.intercalate [part.2] = [] then _
        else parts.separator.intercalate [part.2])
      rw [List.intercalate_singleton]
      exact hprints.orUnknown
    · rw [topNames_single hdepth hallOf hreference hunion, hshape, hshapes]
      exact hnames
  · refine renders_other (?_ : result.shape = .other)
      (?_ : topNames defs (0 + 1) seen depth schema = some none)
    · rw [hshape]
      apply shapeOfUnion_of_ne
      rw [hshapes, List.nil_append, List.length_map, ← hmembers.length_eq]
      exact hsingle
    · rw [topNames_union hdepth hallOf hreference hunion hsingle]

/-! ## Shapes -/

/-- A rendering that has no keys of its own to tell. -/
abbrev Plain (rendered : Rendering) : Prop := rendered.shape = .other

theorem walks_renderTuple (items : List Json) (seen : List JsString) (depth : ℕ)
    (schema : Json) :
    Walks defs pre (renderTuple options render items seen depth schema) Plain := by
  rw [renderTuple]
  apply (walks_renderMembers hrender seen (depth + 1) _ [] items).bind
  rintro ⟨parts, shapes⟩
  dsimp only
  have hends {pre' : Prop} (rest : Rendering) : Walks defs pre' (do
      let rest ← element options rest.text
      let parts ← parts.add (ofAscii "..." ++ rest ++ ofAscii "[]")
      pure (plain (parts.finish (ofAscii "[") (ofAscii "]")))) Plain :=
    (walks_element rest.text).bind fun _ => (walks_add parts _).bind fun _ =>
      safe_pure fun _ => rfl
  split
  · exact safe_pure fun _ => rfl
  · split
    · exact (safe_pure fun _ => trivial : Walks defs _ _ fun _ => True).bind hends
    · exact (safe_pure fun _ => trivial : Walks defs _ _ fun _ => True).bind hends
    · exact ((hrender _ _ _).weaken (fun _ => trivial) fun _ _ => id).bind fun _ => hends _

theorem walks_renderArray (seen : List JsString) (depth : ℕ) (schema : Json) :
    Walks defs pre (renderArray options render seen depth schema) Plain := by
  have hends {pre' : Prop} (items : Rendering) : Walks defs pre' (do
      let items ← element options items.text
      pure (plain (items ++ ofAscii "[]"))) Plain :=
    (walks_element items.text).bind fun _ => safe_pure fun _ => rfl
  rw [renderArray]
  split
  · exact (safe_pure fun _ => trivial : Walks defs _ _ fun _ => True).bind hends
  · split_ifs
    · exact ((hrender _ _ _).weaken (fun _ => trivial) fun _ _ => id).bind fun _ => hends _
    · exact (safe_pure fun _ => trivial : Walks defs _ _ fun _ => True).bind hends

variable (hcompact : options.typescript = false)

include hcompact in
/-- Each property is written with its key, its mark and what stands behind its colon. -/
theorem walks_renderProperties (required : List JsString) (seen : List JsString) (depth : ℕ)
    (parts : Parts) (properties : List (JsString × Json)) :
    Walks defs pre (renderProperties options render required seen depth parts properties)
      fun result => ∃ members : List (JsString × Bool × JsString),
        result.separator = parts.separator ∧
          result.parts = parts.parts ++ members.map printedMember ∧
          members.map (fun member => (member.1, member.2.1)) =
            properties.map fun property => (property.1, !required.contains property.1) := by
  induction properties generalizing parts pre with
  | nil =>
      apply safe_pure
      intro _
      exact ⟨[], rfl, (List.append_nil _).symm, rfl⟩
  | cons property rest ih =>
      obtain ⟨key, value⟩ := property
      rw [renderProperties]
      apply ((hrender seen (depth + 1) value).weaken (fun _ => trivial) fun _ _ => id).bind
      intro rendered
      apply (spends_checkDescription options (descriptionOf value)).walks_true.bind
      intro _
      apply (spends_text key).walks_true.bind
      intro _
      apply (walks_add parts _).bind
      intro parts'
      apply (ih parts').weaken id
      intro hpre result hresult
      obtain ⟨members, hseparator, htexts, hnames⟩ := hresult
      obtain ⟨_, hseparator', hadded⟩ := hpre
      obtain ⟨behind, htext⟩ : ∃ behind, memberText options key (!required.contains key)
          rendered.text (descriptionOf value) =
            printedMember (key, !required.contains key, behind) := by
        rw [memberText, hcompact]
        simp only [printedMember, List.append_assoc, Bool.false_eq_true, if_false]
        exact ⟨_, rfl⟩
      refine ⟨(key, !required.contains key, behind) :: members,
        hseparator.trans hseparator', ?_, ?_⟩
      · rw [htexts, hadded, htext, List.append_assoc]
        rfl
      · rw [List.map_cons, hnames, List.map_cons]

omit hrender in
include hcompact in
theorem walks_renderLeaf (schema : Json) :
    Walks defs pre (renderLeaf options schema) Plain := by
  rw [renderLeaf]
  split
  · rename_i type _
    apply (walks_text type).bind
    intro type
    exact walks_constrain_plain schema _
  · rename_i types _
    apply (spends_renderTypeNames _ types).walks_true.bind
    intro parts
    apply (spends_ungroupIf _ _).walks_true.bind
    intro _
    exact walks_constrain_plain schema _
  · simp only [hcompact, Bool.false_eq_true, if_false]
    split_ifs
    · exact ((walks_renderConstraints _ schema _).weaken id fun _ _ _ => trivial).bind
        fun _ => safe_pure fun _ => rfl
    · rw [map_eq_pure_bind]
      exact (spends_json schema).walks_true.bind fun _ => safe_pure fun _ => rfl

variable (hordered : options.requiredFirst = false)
include hcompact hordered

/-- An object schema renders as an object type with its own keys. -/
theorem walks_renderObject (seen : List JsString) (depth : ℕ) (schema : Json) :
    Walks defs pre (renderObject options render seen depth schema) fun rendered =>
      Prints rendered.shape rendered.text ∧ rendered.shape.names = some (ownNames schema) := by
  rw [renderObject]
  apply (walks_schemaRequired schema).bind
  intro required
  apply (spends_propertyNames _).walks_true.bind
  intro _
  simp only [orderedProperties, hordered, hcompact, Bool.false_eq_true, if_false,
    Bool.false_and, renderIndex_compact, pure_bind]
  cases hproperties : enumerable (propertiesOf schema) with
  | nil =>
      apply safe_pure
      rintro ⟨⟨_, rfl⟩, _⟩
      refine ⟨Prints.empty, ?_⟩
      rw [ownNames, hproperties]
      rfl
  | cons property rest =>
      apply (walks_renderProperties hrender hcompact required seen depth _ _).bind
      intro parts
      apply safe_pure
      rintro ⟨⟨⟨_, rfl⟩, _⟩, members, hseparator, hparts, hnames⟩
      refine ⟨?_, ?_⟩
      · rw [Parts.finish, hseparator, hparts, ← hnames]
        exact Prints.object members
      · rw [ownNames, hproperties]
        rfl

/-- A schema that composes no others renders as an object type where it is an object schema. -/
theorem walks_renderShape (seen : List JsString) (depth : ℕ) (schema : Json) :
    Walks defs pre (renderShape options render seen depth schema) fun rendered =>
      Prints rendered.shape rendered.text ∧
        rendered.shape.names = if objectNode schema then some (ownNames schema) else none := by
  have hplain {program : SchemaWalk Rendering} (hnode : objectNode schema = false)
      (hprogram : Walks defs pre program Plain) :
      Walks defs pre program fun rendered => Prints rendered.shape rendered.text ∧
        rendered.shape.names = if objectNode schema then some (ownNames schema) else none := by
    apply hprogram.weaken id
    intro _ rendered hshape
    rw [hnode, hshape]
    exact ⟨Prints.other _, rfl⟩
  rw [renderShape]
  cases henum : elementsOf (keyword schema "enum") with
  | some values =>
      have hnode : objectNode schema = false := by
        rw [objectNode, henum]
        rfl
      apply hplain hnode
      apply (walks_renderEnum values options.enumByteLimit).bind
      intro rendered
      exact walks_constrain_plain schema rendered
  | none =>
  cases hconst : keyword schema "const" with
  | some value =>
      have hnode : objectNode schema = false := by
        rw [objectNode, hconst, Option.isNone_some, Bool.and_false]
        rfl
      apply hplain hnode
      apply (spends_json value).walks_true.bind
      intro rendered
      exact walks_constrain_plain schema rendered
  | none =>
  dsimp only
  have htypes : typeListOf options schema = none := by
    rw [typeListOf, hcompact]
    rfl
  rw [htypes]
  cases hprefix : elementsOf (keyword schema "prefixItems") with
  | some items =>
      have hnode : objectNode schema = false := by simp [objectNode, hprefix]
      apply hplain hnode
      exact walks_renderTuple hrender items seen depth schema
  | none =>
      dsimp only
      by_cases harray : (hasType schema "array" || truthy (keyword schema "items")) = true
      · have hnode : objectNode schema = false := by simp [objectNode, harray]
        rw [if_pos harray]
        apply hplain hnode
        exact walks_renderArray hrender seen depth schema
      · rw [if_neg harray]
        by_cases hobject : (hasType schema "object" ||
          truthy (keyword schema "properties")) = true
        · have hnode : objectNode schema = true := by
            simp [objectNode, henum, hconst, hprefix, harray, hobject]
          rw [if_pos hobject, hnode]
          exact walks_renderObject hrender hcompact hordered seen depth schema
        · have hnode : objectNode schema = false := by simp [objectNode, hobject]
          rw [if_neg hobject]
          apply hplain hnode
          exact walks_renderLeaf hcompact schema

/-! ## Nodes -/

omit hcompact hordered in
/-- A condition leaves something out. -/
theorem walks_renderConditional (seen : List JsString) (depth : ℕ) (schema : Json) :
    Walks defs pre (renderConditional render seen depth schema) fun _ => False := by
  have hbase {pre' : Prop} :
      Walks defs pre' (renderBase render conditionals seen depth schema) fun _ => True := by
    apply (spends_propertyNames schema).walks_true.bind
    intro _
    dsimp only
    split_ifs
    · exact (hrender seen depth _).weaken (fun _ => trivial) fun _ _ _ => trivial
    · exact safe_pure fun _ => trivial
  rw [renderConditional]
  apply walks_truncate.bind
  intro _
  apply hbase.bind
  intro rendered
  apply (spends_isUngrouped rendered.text).walks_true.bind
  intro bare
  apply (spends_ungroupIf bare _).walks_true.bind
  intro _
  exact safe_pure fun hpre => hpre.1.1.1.2

theorem walks_renderKeywords {seen : List JsString} {depth : ℕ} (hdepth : ¬4 < depth)
    (schema : Json) :
    Walks defs pre (renderKeywords options defs render seen depth schema)
      (Renders defs seen depth schema) := by
  have hnullable : nullable options schema = false := by
    rw [nullable, hcompact]
    split
    · rfl
    · rfl
  rw [renderKeywords, hnullable, if_neg Bool.false_ne_true]
  split_ifs
  · exact (walks_renderConditional hrender seen depth schema).weaken id fun _ _ => False.elim
  cases hallOf : elementsOf (keyword schema "allOf") with
  | some members => exact walks_renderAllOf hrender hcompact hdepth hallOf
  | none =>
      dsimp only
      cases hreference : referenceOf schema with
      | some found => exact walks_renderReference hrender hcompact hdepth hallOf hreference
      | none =>
          dsimp only
          cases hunion : unionOf schema with
          | some members => exact walks_renderUnion hrender hdepth hallOf hreference hunion
          | none =>
              apply (walks_renderShape hrender hcompact hordered seen depth schema).weaken id
              rintro _ rendered ⟨hprints, hnames⟩
              refine ⟨hprints, 1, ?_⟩
              rw [topNames_shape hdepth hallOf hreference hunion, hnames]

theorem walks_renderSchemaNode (seen : List JsString) (depth : ℕ) (schema : Json) :
    Walks defs pre (renderSchemaNode options defs render seen depth schema)
      (Renders defs seen depth schema) := by
  by_cases hdepth : 4 < depth
  · unfold renderSchemaNode
    simp only [if_pos hdepth, hcompact, Bool.not_false, if_true]
    apply safe_pure
    intro _
    exact renders_other rfl (topNames_deep hdepth : topNames defs (0 + 1) seen depth schema = _)
  · have hleaf (hschema : ∀ name, keyword schema name = none) {program : SchemaWalk Rendering}
        (hprogram : Walks defs pre program Plain) :
        Walks defs pre program (Renders defs seen depth schema) := by
      apply hprogram.weaken id
      intro _ rendered hshape
      exact renders_other hshape (topNames_leaf hdepth hschema)
    have hjson (value : Json) : Walks defs pre (plain <$> json value) Plain := by
      rw [map_eq_pure_bind]
      exact (spends_json value).walks_true.bind fun _ => safe_pure fun _ => rfl
    unfold renderSchemaNode
    rw [if_neg hdepth]
    cases schema with
    | object members => exact walks_renderKeywords hrender hcompact hordered hdepth _
    | array elements => exact walks_renderKeywords hrender hcompact hordered hdepth _
    | bool value =>
        simp only [hcompact, Bool.false_eq_true, if_false]
        cases value with
        | true => exact hleaf (fun _ => rfl) (hjson _)
        | false => exact hleaf (fun _ => rfl) (hjson _)
    | null =>
        simp only [hcompact, Bool.false_eq_true, if_false]
        exact hleaf (fun _ => rfl) (hjson _)
    | number lexeme =>
        simp only [hcompact, Bool.false_eq_true, if_false]
        exact hleaf (fun _ => rfl) (hjson _)
    | string text =>
        simp only [hcompact, Bool.false_eq_true, if_false]
        exact hleaf (fun _ => rfl) (hjson _)

end

/-! ## Schemas -/

/-- Every rendering that left nothing out writes its shape, with the keys of the schema. -/
theorem walks_renderSchema (hcompact : options.typescript = false)
    (hordered : options.requiredFirst = false) (fuel : ℕ) (seen : List JsString) (depth : ℕ)
    (schema : Json) :
    Walks defs True (renderSchema options defs fuel seen depth schema)
      (Renders defs seen depth schema) := by
  induction fuel generalizing seen depth schema with
  | zero => exact safe_throw
  | succ fuel ih =>
      rw [renderSchema]
      apply spends_visit.walks_true.bind
      intro _
      apply (walks_renderSchemaNode ih hcompact hordered seen depth schema).bind
      intro rendered
      apply (walks_text rendered.text).bind
      intro text
      apply safe_pure
      rintro ⟨⟨_, hrendered⟩, rfl⟩
      exact hrendered

end

/-- What a description rendering that is complete tells of a schema. -/
theorem firstRendering_renders {schema : Json} {rendering : Rendering} {work : SchemaWork}
    (hrendering : firstRendering schema true false = (.ok rendering, work))
    (hcomplete : work.truncated = false) : Renders schema [] 0 schema rendering := by
  have hwalks := @walks_renderSchema schema (renderOptions true false) rfl rfl maxSchemaWork [] 0
    schema
  have hdown : ¬work.truncated = true := by
    rw [hcomplete]
    exact Bool.false_ne_true
  obtain ⟨_, hkeeps⟩ := hwalks _ rendering work hrendering hdown
  have hstart : Remembers schema (.start maxCompactDescriptionSchemaBytes) := by
    intro name depth seen target rendered _ _ hfound
    cases hfound
  exact (hkeeps hstart trivial).2

end Connecta.Catalog
