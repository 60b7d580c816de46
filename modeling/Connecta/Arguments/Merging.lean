import Mathlib
import Connecta.Arguments.NormalPlans

/-!
# Merging plans

Merging plans in normal form gives the plan, in normal form, of what either of them
omits.  As a plan in normal form is told by what it omits, these plans are a
semilattice under merging.
-/

namespace Connecta.Arguments

open Connecta.Runtime
open Connecta.Inputs (keyPrecedes)
open Connecta.Http (keyPrecedes_trans keyPrecedes_total)

/-! ## Levels -/

theorem height_property {plan : Plan} {entry : JsString × Plan}
    (hmem : entry ∈ plan.properties) : height entry.2 < height plan := by
  have hlist : ∀ properties : List (JsString × Plan), entry ∈ properties →
      height entry.2 < propertiesHeight properties := by
    intro properties hmem
    induction properties with
    | nil => cases hmem
    | cons first others ih =>
        rw [propertiesHeight, lt_max_iff]
        rcases List.mem_cons.mp hmem with rfl | hmem
        · exact .inl (Nat.lt_succ_self _)
        · exact .inr (ih hmem)
  cases plan with
  | mk omitted properties prefixes items => exact lt_max_of_lt_left (hlist properties hmem)

theorem height_leading {plan part : Plan} (hmem : part ∈ plan.prefixes) :
    height part < height plan := by
  have hlist : ∀ prefixes : List Plan, part ∈ prefixes →
      height part < prefixesHeight prefixes := by
    intro prefixes hmem
    induction prefixes with
    | nil => cases hmem
    | cons first others ih =>
        rw [prefixesHeight, lt_max_iff]
        rcases List.mem_cons.mp hmem with rfl | hmem
        · exact .inl (Nat.lt_succ_self _)
        · exact .inr (ih hmem)
  cases plan with
  | mk omitted properties prefixes items =>
      exact lt_max_of_lt_right (lt_max_of_lt_left (hlist prefixes hmem))

theorem height_items {plan part : Plan} (hitems : plan.items = some part) :
    height part < height plan := by
  cases plan with
  | mk omitted properties prefixes items =>
      obtain rfl : items = some part := hitems
      exact lt_max_of_lt_right (lt_max_of_lt_right (Nat.lt_succ_self _))

section Levels

variable {plan : Plan} {rounds : ℕ} (hheight : height plan ≤ rounds + 1)

include hheight

theorem height_field (name : JsString) : height (field plan.properties name) ≤ rounds := by
  by_cases hmem : name ∈ plan.properties.map Prod.fst
  · obtain ⟨entry, hentry, -, heq⟩ := field_of_mem hmem
    rw [heq]
    have hbelow := height_property hentry
    omega
  · rw [field_of_notMem hmem]
    exact Nat.zero_le _

theorem height_rest : height (plan.items.getD PUBLIC) ≤ rounds := by
  cases hitems : plan.items with
  | none => exact Nat.zero_le _
  | some part =>
      have hbelow := height_items hitems
      rw [Option.getD_some]
      omega

theorem height_item (index : ℕ) : height (item plan index) ≤ rounds := by
  rcases lt_or_ge index plan.prefixes.length with hindex | hindex
  · rw [item_of_lt hindex]
    have hbelow := height_leading (List.getElem_mem hindex)
    omega
  · rw [item_of_le hindex]
    exact height_rest hheight

end Levels

theorem eq_of_height_zero {plan : Plan} (hheight : height plan = 0) :
    plan = if plan.omitted then OMIT else PUBLIC := by
  rcases plan with ⟨omitted, properties, prefixes, items⟩
  have hproperties : properties = [] := by
    refine List.eq_nil_iff_forall_not_mem.mpr fun entry hmem => ?_
    have hbelow := @height_property (.mk omitted properties prefixes items) entry hmem
    omega
  have hprefixes : prefixes = [] := by
    refine List.eq_nil_iff_forall_not_mem.mpr fun part hmem => ?_
    have hbelow := @height_leading (.mk omitted properties prefixes items) part hmem
    omega
  have hitems : items = none := by
    refine Option.eq_none_iff_forall_ne_some.mpr fun part hitems => ?_
    have hbelow := @height_items (.mk omitted properties prefixes items) part hitems
    omega
  subst hproperties hprefixes hitems
  cases omitted <;> rfl

/-! ## Names -/

theorem mem_sortedNames {left right : List (JsString × Plan)} {name : JsString} :
    name ∈ sortedNames left right ↔
      name ∈ left.map Prod.fst ∨ name ∈ right.map Prod.fst := by
  rw [sortedNames, List.mem_insertionSort, List.mem_dedup, List.mem_append]

theorem sortedNames_ordered (left right : List (JsString × Plan)) (value : JsString → Plan) :
    Ordered ((sortedNames left right).map fun name => (name, value name)) := by
  have hsorted : (sortedNames left right).Pairwise fun one two => keyPrecedes one two = true := by
    have : Std.Total fun one two : JsString => keyPrecedes one two = true :=
      ⟨fun one two => by simpa using keyPrecedes_total one two⟩
    have : IsTrans JsString fun one two => keyPrecedes one two = true :=
      ⟨fun one two three => keyPrecedes_trans one two three⟩
    exact List.pairwise_insertionSort _ _
  have hdistinct : (sortedNames left right).Nodup :=
    (List.perm_insertionSort _ _).nodup_iff.mpr (List.nodup_dedup _)
  exact List.pairwise_map.mpr (hsorted.and hdistinct)

/-! ## Unions -/

/-- A plan in normal form that omits what either of two plans does. -/
structure IsUnion (plan left right : Plan) : Prop where
  normal : Normal plan
  omits : ∀ position, omits plan position = (omits left position || omits right position)

theorem IsUnion.sensitive {plan left right : Plan} (hunion : IsUnion plan left right)
    {position : List Step} (hone : Arguments.omits left position = true ∨
      Arguments.omits right position = true) : Arguments.sensitive plan = true := by
  apply @sensitive_of_omits plan position
  rw [hunion.omits, Bool.or_eq_true]
  exact hone

theorem mergeItemsWith_isUnion {merge : Plan → Plan → Plan} {left right : Plan}
    (hleft : Normal left) (hright : Normal right) (hmerge : IsUnion (merge left right) left right) :
    IsUnion (mergeItemsWith merge left right) left right := by
  rw [mergeItemsWith]
  split_ifs with hpublic hpublic'
  · rw [Bool.not_eq_true'] at hpublic
    rw [sensitive_eq_false hpublic]
    exact ⟨hright, fun position => by rw [omits_public, Bool.false_or]⟩
  · rw [Bool.not_eq_true'] at hpublic'
    rw [sensitive_eq_false hpublic']
    exact ⟨hleft, fun position => by rw [omits_public, Bool.or_false]⟩
  · exact hmerge

theorem rest_eq (items : Plan) :
    (if sensitive items then some items else none).getD PUBLIC = items := by
  split_ifs with hsensitive
  · rfl
  · exact (sensitive_eq_false (Bool.eq_false_iff.mpr hsensitive)).symm

theorem ne_of_trimmed {prefixes : List Plan} {items plan : Plan}
    (hlast : (prefixes.rdropWhile fun plan => equal plan items).getLast? = some plan) :
    plan ≠ items := by
  rintro rfl
  have hkept : prefixes.rdropWhile (fun other => equal other plan) ≠ [] := by
    intro hempty
    rw [hempty] at hlast
    cases hlast
  have hend := Option.some.inj ((List.getLast?_eq_some_getLast hkept).symm.trans hlast)
  apply List.rdropWhile_last_not _ _ hkept
  rw [hend]
  exact decide_eq_true rfl

/-- The prefixes that are left after those at the end that say what the items say. -/
theorem item_trimmed {properties : List (JsString × Plan)} {prefixes : List Plan} {items : Plan}
    (hequal : ∀ plan ∈ prefixes, equal plan items = true → plan = items) (index : ℕ) :
    item (.mk false properties (prefixes.rdropWhile fun plan => equal plan items)
      (if sensitive items then some items else none)) index = (prefixes[index]?).getD items := by
  have hsplit := List.rdropWhile_append_rtakeWhile (l := prefixes)
    (p := fun plan => equal plan items)
  set kept := prefixes.rdropWhile fun plan => equal plan items
  set dropped := prefixes.rtakeWhile fun plan => equal plan items
  have hdropped : ∀ plan ∈ dropped, plan = items := by
    intro plan hmem
    refine hequal plan ?_ (List.mem_rtakeWhile_imp (p := fun plan => equal plan items) hmem)
    rw [← hsplit]
    exact List.mem_append_right _ hmem
  rw [← hsplit]
  rcases lt_or_ge index kept.length with hindex | hindex
  · rw [item_of_lt (by exact hindex), List.getElem?_append_left hindex,
      List.getElem?_eq_getElem hindex, Option.getD_some]
    rfl
  · rw [item_of_le (by exact hindex), List.getElem?_append_right hindex]
    refine (rest_eq items).trans ?_
    cases hfound : dropped[index - kept.length]? with
    | none => rfl
    | some plan => exact (hdropped plan (List.mem_of_getElem? hfound)).symm

/-- The plan of a name after the properties are merged. -/
theorem field_merged (left right : List (JsString × Plan)) (value : JsString → Plan)
    (name : JsString) :
    field ((sortedNames left right).map fun name => (name, value name)) name =
      if name ∈ left.map Prod.fst ∨ name ∈ right.map Prod.fst then value name else PUBLIC := by
  split_ifs with hmem
  · exact field_eq (sortedNames_ordered left right value).nodup
      (List.mem_map_of_mem (mem_sortedNames.mpr hmem))
  · apply field_of_notMem
    intro hname
    obtain ⟨entry, hentry, rfl⟩ := List.mem_map.mp hname
    obtain ⟨other, hother, rfl⟩ := List.mem_map.mp hentry
    exact hmem (mem_sortedNames.mp hother)

/-- The plan of an item after the prefixes and the items are merged. -/
theorem item_merged (left right : Plan) (properties : List (JsString × Plan))
    (value : Plan → Plan → Plan)
    (hequal : ∀ index, equal (value (item left index) (item right index))
        (value (left.items.getD PUBLIC) (right.items.getD PUBLIC)) = true →
      value (item left index) (item right index) =
        value (left.items.getD PUBLIC) (right.items.getD PUBLIC)) (index : ℕ) :
    let items := value (left.items.getD PUBLIC) (right.items.getD PUBLIC)
    let prefixes := (List.range (max left.prefixes.length right.prefixes.length)).map
      fun index => value (item left index) (item right index)
    item (.mk false properties (prefixes.rdropWhile fun plan => equal plan items)
      (if sensitive items then some items else none)) index =
        value (item left index) (item right index) := by
  intro items prefixes
  have hmerged : ∀ plan ∈ prefixes, equal plan items = true → plan = items := by
    intro plan hmem
    obtain ⟨index, -, rfl⟩ := List.mem_map.mp hmem
    exact hequal index
  rw [item_trimmed hmerged]
  rcases lt_or_ge index (max left.prefixes.length right.prefixes.length) with hindex | hindex
  · rw [List.getElem?_map, List.getElem?_range hindex]
    rfl
  · have hlength : prefixes.length ≤ index := by
      rw [List.length_map, List.length_range]
      exact hindex
    rw [List.getElem?_eq_none hlength, item_of_le (le_of_max_le_left hindex),
      item_of_le (le_of_max_le_right hindex)]
    rfl

/-- Merging plans whose parts are in normal form. -/
theorem mergeRounds_isUnion {rounds : ℕ} {left right : Plan} (hleft : Parts left)
    (hright : Parts right) (hheight : height left ≤ rounds) (hheight' : height right ≤ rounds) :
    IsUnion (mergeRounds rounds left right) left right := by
  induction rounds generalizing left right with
  | zero =>
      have hone := eq_of_height_zero (Nat.le_zero.mp hheight)
      have htwo := eq_of_height_zero (Nat.le_zero.mp hheight')
      rw [mergeRounds]
      cases hleft' : left.omitted <;> cases hright' : right.omitted <;>
        rw [hleft'] at hone <;> rw [hright'] at htwo <;> subst hone htwo
      · exact ⟨normal_public, fun position => by simp⟩
      all_goals exact ⟨.omitted, fun position => by simp⟩
  | succ rounds ih =>
      rw [mergeRounds]
      split_ifs with homitted
      · refine ⟨.omitted, fun position => ?_⟩
        rw [omits_omit]
        rw [Bool.or_eq_true] at homitted
        rcases homitted with homitted | homitted
        · rw [omits_of_omitted homitted, Bool.true_or]
        · rw [omits_of_omitted homitted, Bool.or_true]
      have hfield : ∀ name, IsUnion
          (mergeRounds rounds (field left.properties name) (field right.properties name))
          (field left.properties name) (field right.properties name) :=
        fun name => ih (hleft.field name).parts (hright.field name).parts
          (height_field hheight name) (height_field hheight' name)
      have hitem : ∀ index, IsUnion
          (mergeItemsWith (mergeRounds rounds) (item left index) (item right index))
          (item left index) (item right index) :=
        fun index => mergeItemsWith_isUnion (hleft.item index) (hright.item index)
          (ih (hleft.item index).parts (hright.item index).parts (height_item hheight index)
            (height_item hheight' index))
      have hrest : IsUnion
          (mergeItemsWith (mergeRounds rounds) (left.items.getD PUBLIC) (right.items.getD PUBLIC))
          (left.items.getD PUBLIC) (right.items.getD PUBLIC) :=
        mergeItemsWith_isUnion hleft.rest hright.rest
          (ih hleft.rest.parts hright.rest.parts (height_rest hheight) (height_rest hheight'))
      have hname := field_merged left.properties right.properties fun name =>
        mergeRounds rounds (field left.properties name) (field right.properties name)
      have hindex := item_merged left right
        ((sortedNames left.properties right.properties).map fun name =>
          (name, mergeRounds rounds (field left.properties name) (field right.properties name)))
        (mergeItemsWith (mergeRounds rounds))
        fun index => ((hitem index).normal.equal_iff hrest.normal).mp
      dsimp only at hindex ⊢
      refine ⟨.shown (sortedNames_ordered _ _ _) ?_ ?_ ?_ ?_ ?_ ?_, fun position => ?_⟩
      · intro entry hmem
        obtain ⟨name, -, rfl⟩ := List.mem_map.mp hmem
        exact (hfield name).normal
      · intro entry hmem
        obtain ⟨name, hname, rfl⟩ := List.mem_map.mp hmem
        have hone : ∀ plan : Plan, Parts plan → name ∈ plan.properties.map Prod.fst →
            ∃ position, omits (field plan.properties name) position = true := by
          intro plan hparts hmem
          obtain ⟨entry, hentry, -, heq⟩ := field_of_mem hmem
          rw [heq]
          exact (hparts.properties entry hentry).exists_omits (hparts.isPrivate entry hentry)
        rcases mem_sortedNames.mp hname with hname | hname
        · obtain ⟨position, homits⟩ := hone left hleft hname
          exact (hfield name).sensitive (.inl homits)
        · obtain ⟨position, homits⟩ := hone right hright hname
          exact (hfield name).sensitive (.inr homits)
      · intro plan hmem
        obtain ⟨index, -, rfl⟩ := List.mem_map.mp ((List.rdropWhile_prefix _ _).subset hmem)
        exact (hitem index).normal
      · intro plan hlast heq
        exact ne_of_trimmed hlast (heq.trans (rest_eq _))
      · intro plan hitems
        split_ifs at hitems
        exact Option.some.inj hitems ▸ hrest.normal
      · intro plan hitems
        split_ifs at hitems with hsensitive
        exact Option.some.inj hitems ▸ hsensitive
      · rw [Bool.or_eq_true, not_or, Bool.not_eq_true, Bool.not_eq_true] at homitted
        cases position with
        | nil =>
            rw [omits, omits, omits, homitted.1, homitted.2]
            rfl
        | cons step rest =>
            cases step with
            | index index =>
                rw [omits, omits, omits, homitted.1, homitted.2, hindex, (hitem index).omits]
                rfl
            | key name =>
                rw [omits, omits, omits, homitted.1, homitted.2]
                refine (congrArg (fun plan => false || omits plan rest) (hname name)).trans ?_
                split_ifs with hmem
                · rw [(hfield name).omits]
                  rfl
                · rw [not_or] at hmem
                  rw [field_of_notMem hmem.1, field_of_notMem hmem.2, omits_public]
                  rfl

theorem merge_isUnion {left right : Plan} (hleft : Parts left) (hright : Parts right) :
    IsUnion (merge left right) left right :=
  mergeRounds_isUnion hleft hright (le_max_left ..) (le_max_right ..)

/-! ## Plans as a semilattice -/

/-- A plan in normal form. -/
structure NormalPlan where
  plan : Plan
  normal : Normal plan

namespace NormalPlan

/-- What a plan omits. -/
def omitted (plan : NormalPlan) : Set (List Step) :=
  {position | omits plan.plan position = true}

theorem omitted_injective : Function.Injective omitted := by
  rintro ⟨left, hleft⟩ ⟨right, hright⟩ heq
  have hplans : left = right := hleft.unique hright fun position =>
    Bool.eq_iff_iff.mpr (Set.ext_iff.mp heq position)
  subst hplans
  rfl

instance : Max NormalPlan where
  max left right :=
    ⟨merge left.plan right.plan, (merge_isUnion left.normal.parts right.normal.parts).normal⟩

instance : PartialOrder NormalPlan := PartialOrder.lift omitted omitted_injective

theorem omitted_sup (left right : NormalPlan) :
    (left ⊔ right).omitted = left.omitted ⊔ right.omitted := by
  ext position
  exact (congrArg (· = true) ((merge_isUnion left.normal.parts right.normal.parts).omits
    position)).to_iff.trans (by rw [Bool.or_eq_true]; rfl)

instance : SemilatticeSup NormalPlan where
  le_sup_left left right := by
    change left.omitted ≤ (left ⊔ right).omitted
    rw [omitted_sup]
    exact le_sup_left
  le_sup_right left right := by
    change right.omitted ≤ (left ⊔ right).omitted
    rw [omitted_sup]
    exact le_sup_right
  sup_le left right bound hleft hright := by
    change (left ⊔ right).omitted ≤ bound.omitted
    rw [omitted_sup]
    exact sup_le hleft hright
  sup left right := left ⊔ right

end NormalPlan

end Connecta.Arguments
