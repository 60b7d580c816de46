import Connecta.Arguments.Compiling

/-!
# What withholds an echo

A schema that compiles has been examined as far as no value above is private: no
subschema under an applicator that is not evaluated is private anywhere, and the
alternatives of a union cover the same positions.  Merging the alternatives then
changes nothing.
-/

namespace Connecta.Arguments

open Connecta.Runtime

variable {Address : Type} (heap : Heap Address) (root : Address)

/-- A subschema under an applicator that is not evaluated. -/
inductive Unread (fields : Fields Address) : Node Address → Prop where
  | schema {keyword : String} {child : Node Address} (hkeyword : keyword ∈ SCHEMA_KEYWORDS)
      (hget : fields.get keyword = some child) : Unread fields child
  | record {keyword : String} {node child : Node Address} {record : Fields Address}
      {name : JsString} (hkeyword : keyword ∈ RECORD_KEYWORDS)
      (hget : fields.get keyword = some node) (hrecord : recordOf heap node = some record)
      (hmem : (name, child) ∈ record.entries)
      (hschema : keyword = "dependencies" → listOf heap (some child) = none) : Unread fields child

/-- A subschema below a schema, and below no schema of a private value. -/
inductive Examined : Node Address → Node Address → Prop where
  | self (node : Node Address) : Examined node node
  | part {address : Address} {fields : Fields Address} {keyword : String} {steps : List Step}
      {child target : Node Address} (hcell : heap address = .object fields)
      (hpublic : ownsWriteOnly (heap address) = false)
      (hpart : Part heap root fields keyword steps child) (hbelow : Examined child target) :
      Examined (.ref address) target
  | unread {address : Address} {fields : Fields Address} {child target : Node Address}
      (hcell : heap address = .object fields) (hpublic : ownsWriteOnly (heap address) = false)
      (hunread : Unread heap fields child) (hbelow : Examined child target) :
      Examined (.ref address) target

variable {heap root} {fields : Fields Address} {child : Node Address → Compile Plan}
  {plan result : Plan} {visited after : ℕ}

/-! ## Every subschema is compiled -/

theorem each_mem {Source Result : Type} {part : Source → Compile Result} {sources : List Source}
    {results : List Result} (heach : each part sources visited = some (results, after))
    {source : Source} (hmem : source ∈ sources) :
    ∃ before result after, part source before = some (result, after) := by
  obtain ⟨result, -, before, after, hrun⟩ := forall₂_left (each_eq_some heach) hmem
  exact ⟨before, result, after, hrun⟩

theorem propertiesPlan_runs {localeCompare : JsString → JsString → Bool} {node : Node Address}
    {record : Fields Address} {entry : JsString × Node Address}
    (hrun : propertiesPlan heap child fields localeCompare plan visited = some (result, after))
    (hget : fields.get "properties" = some node) (hrecord : recordOf heap node = some record)
    (hmem : entry ∈ record.entries) :
    ∃ before plan after, child entry.2 before = some (plan, after) := by
  rw [propertiesPlan, hget] at hrun
  obtain ⟨record', between, hlift, hrun⟩ := bind_eq_some.mp hrun
  obtain ⟨hrecord', rfl⟩ := lift_eq_some.mp hlift
  obtain rfl := Option.some.inj (hrecord.symm.trans hrecord')
  obtain ⟨plans, between, hplans, -⟩ := bind_eq_some.mp hrun
  obtain ⟨before, _, after, hentry⟩ := each_mem hplans hmem
  obtain ⟨plan, between, hchild, -⟩ := bind_eq_some.mp hentry
  exact ⟨before, plan, between, hchild⟩

theorem branchesPlan_runs {unionAlternatives : Bool} {keyword : String}
    {list : List (Node Address)} {node : Node Address}
    (hrun : branchesPlan heap child fields unionAlternatives keyword plan visited =
      some (result, after))
    (hget : listOf heap (fields.get keyword) = some list) (hmem : node ∈ list) :
    ∃ before plan after, child node before = some (plan, after) := by
  rw [branchesPlan] at hrun
  cases hkeyword : fields.get keyword with
  | none =>
      rw [hkeyword] at hget
      cases hget
  | some found =>
      rw [hkeyword] at hget hrun
      obtain ⟨branches, between, hlift, hrun⟩ := bind_eq_some.mp hrun
      obtain ⟨hbranches, rfl⟩ := lift_eq_some.mp hlift
      obtain rfl := Option.some.inj (hget.symm.trans hbranches)
      obtain ⟨plans, between, hplans, -⟩ := bind_eq_some.mp hrun
      exact each_mem hplans hmem

theorem referencePlan_runs {ref target : Node Address}
    (hrun : referencePlan heap child fields root plan visited = some (result, after))
    (hget : fields.get "$ref" = some ref) (htarget : reference heap root ref = some target) :
    ∃ before plan after, child target before = some (plan, after) := by
  rw [referencePlan, hget] at hrun
  obtain ⟨target', between, hlift, hrun⟩ := bind_eq_some.mp hrun
  obtain ⟨htarget', rfl⟩ := lift_eq_some.mp hlift
  obtain rfl := Option.some.inj (htarget.symm.trans htarget')
  obtain ⟨plan, between, hchild, -⟩ := bind_eq_some.mp hrun
  exact ⟨visited, plan, between, hchild⟩

theorem arrayPlan_runs {step : List Step} {node : Node Address}
    (hrun : arrayPlan heap child fields plan visited = some (result, after))
    (hpart : Part heap root fields "items" step node) :
    ∃ before plan after, child node before = some (plan, after) := by
  obtain ⟨prefixes, rest, plans, between, restPlans, hlists, hplans, hrestPlans, -⟩ :=
    arrayPlan_cases hrun
  have hmem : node ∈ prefixes ∨ rest = some node := by
    generalize hkeyword : "items" = keyword at hpart
    cases hpart with
    | prefixItem hget hchild =>
        refine .inl ?_
        rcases hlists with ⟨_, _, hnone, -, -⟩ | ⟨-, hprefixes, -⟩
        · rw [hnone] at hget
          cases hget
        · rw [hget] at hprefixes
          exact hprefixes ▸ List.mem_of_getElem? hchild
    | items hget hschema hbeyond =>
        refine .inr ?_
        rcases hlists with ⟨list, hlist, -, -, -⟩ | ⟨-, -, hrest⟩
        · rw [hget, hschema] at hlist
          cases hlist
        · exact hrest.trans hget
    | listItem hget hchild =>
        refine .inl ?_
        rcases hlists with ⟨list, hlist, -, rfl, -⟩ | ⟨hnone, -, -⟩
        · obtain rfl := Option.some.inj (hget.symm.trans hlist)
          exact List.mem_of_getElem? hchild
        · rw [hget] at hnone
          cases hnone
    | additionalItem hget hchild hbeyond =>
        refine .inr ?_
        rcases hlists with ⟨list, hlist, -, rfl, hrest⟩ | ⟨hnone, -, -⟩
        · exact hrest.trans hchild
        · rw [hget] at hnone
          cases hnone
    | branch hmem => exact absurd (hkeyword ▸ hmem) (by decide)
    | _ => exact absurd hkeyword (by decide)
  rcases hmem with hmem | rfl
  · exact each_mem hplans hmem
  · exact each_mem hrestPlans (List.mem_singleton_self node)

section Walk

variable {setting : Setting Address}

theorem walkFields_part {keyword : String} {steps : List Step} {node : Node Address}
    (hrun : walkFields heap setting child fields visited = some (result, after))
    (hpart : Part heap setting.root fields keyword steps node) :
    ∃ before plan after, child node before = some (plan, after) := by
  obtain ⟨hreferences, hproperties, hitems, hall, hone, hany, -, -⟩ := walkFields_runs hrun
  have hpart' := hpart
  cases hpart with
  | reference hget htarget => exact referencePlan_runs hreferences hget htarget
  | property hget hrecord hmem => exact propertiesPlan_runs hproperties hget hrecord hmem
  | prefixItem | items | listItem | additionalItem => exact arrayPlan_runs hitems hpart'
  | branch hkeyword hget hmem =>
      simp only [List.mem_cons, List.not_mem_nil, or_false] at hkeyword
      rcases hkeyword with rfl | rfl | rfl
      · exact branchesPlan_runs hall hget hmem
      · exact branchesPlan_runs hone hget hmem
      · exact branchesPlan_runs hany hget hmem

theorem onlyPublic_cases {node : Node Address} {answer : Unit}
    (hrun : onlyPublic child node visited = some (answer, after)) :
    ∃ before plan after, child node before = some (plan, after) ∧ sensitive plan = false := by
  rw [onlyPublic] at hrun
  obtain ⟨plan, between, hchild, hrun⟩ := bind_eq_some.mp hrun
  split_ifs at hrun with hsensitive
  · exact absurd hrun failure_ne_some
  · exact ⟨visited, plan, between, hchild, Bool.eq_false_iff.mpr hsensitive⟩

theorem walkFields_unread {node : Node Address}
    (hrun : walkFields heap setting child fields visited = some (result, after))
    (hunread : Unread heap fields node) :
    ∃ before plan after, child node before = some (plan, after) ∧ sensitive plan = false := by
  obtain ⟨-, -, -, -, -, -, hschemas, hrecords⟩ := walkFields_runs hrun
  cases hunread with
  | schema hkeyword hget =>
      obtain ⟨before, _, after, hschema⟩ := each_mem hschemas hkeyword
      rw [schemaKeyword, hget] at hschema
      exact onlyPublic_cases hschema
  | @record keyword _ _ record name hkeyword hget hrecord hmem hschema =>
      obtain ⟨before, _, after, hrun⟩ := each_mem hrecords hkeyword
      rw [recordKeyword, hget] at hrun
      obtain ⟨record', between, hlift, hrun⟩ := bind_eq_some.mp hrun
      obtain ⟨hrecord', rfl⟩ := lift_eq_some.mp hlift
      obtain rfl := Option.some.inj (hrecord.symm.trans hrecord')
      obtain ⟨_, between, heach, -⟩ := bind_eq_some.mp hrun
      have hvalue : node ∈ record.entries.map Prod.snd := List.mem_map.mpr ⟨_, hmem, rfl⟩
      have hread : node ∈ (if keyword = "dependencies" then
          (record.entries.map Prod.snd).filter fun value => (listOf heap (some value)).isNone
          else record.entries.map Prod.snd) := by
        split_ifs with hdependencies
        · refine List.mem_filter.mpr ⟨hvalue, ?_⟩
          rw [hschema hdependencies]
          rfl
        · exact hvalue
      obtain ⟨before, _, after, hrun⟩ := each_mem heach hread
      exact onlyPublic_cases hrun

variable [DecidableEq Address]

theorem walk_public {levels : ℕ} {active : List Address} {address : Address}
    (hpublic : ownsWriteOnly (heap address) = false)
    (hrun : walk heap setting (levels + 1) active (.ref address) visited = some (result, after)) :
    ∃ fields, heap address = .object fields ∧
      walkFields heap setting (walk heap setting levels (address :: active)) fields
        (visited + 1) = some (result, after) := by
  rcases walk_cases hrun with ⟨_, heq, -⟩ | ⟨_, fields, heq, hcell, hcase⟩
  · cases heq
  · obtain rfl := Node.ref.inj heq
    rcases hcase with ⟨hprivate, -⟩ | ⟨-, hrun⟩
    · rw [hpublic] at hprivate
      cases hprivate
    · exact ⟨fields, hcell, hrun⟩

/-- What a schema is examined for is compiled. -/
theorem walk_examined {levels : ℕ} {active : List Address} {node target : Node Address}
    (hrun : walk heap setting levels active node visited = some (result, after))
    (hexamined : Examined heap setting.root node target) :
    ∃ levels active before plan after,
      walk heap setting levels active target before = some (plan, after) := by
  induction hexamined generalizing levels active visited result after with
  | self node => exact ⟨levels, active, visited, result, after, hrun⟩
  | part hcell hpublic hpart _ ih =>
      cases levels with
      | zero => exact absurd hrun failure_ne_some
      | succ levels =>
          obtain ⟨fields, hcell', hrun⟩ := walk_public hpublic hrun
          obtain rfl := Cell.object.inj (hcell.symm.trans hcell')
          obtain ⟨_, _, _, hchild⟩ := walkFields_part hrun hpart
          exact ih hchild
  | unread hcell hpublic hunread _ ih =>
      cases levels with
      | zero => exact absurd hrun failure_ne_some
      | succ levels =>
          obtain ⟨fields, hcell', hrun⟩ := walk_public hpublic hrun
          obtain rfl := Cell.object.inj (hcell.symm.trans hcell')
          obtain ⟨_, _, _, hchild, -⟩ := walkFields_unread hrun hunread
          exact ih hchild

end Walk

/-! ## Unions -/

theorem branchesPlan_agree {keyword : String} {list : List (Node Address)}
    (hchild : Faithful heap root child) (hkeyword : keyword ≠ "allOf")
    (hrun : branchesPlan heap child fields false keyword plan visited = some (result, after))
    (hget : listOf heap (fields.get keyword) = some list) {one two : Node Address}
    (hone : one ∈ list) (htwo : two ∈ list) {position : List Step}
    (hcovered : Covered heap root one position) : Covered heap root two position := by
  rw [branchesPlan] at hrun
  cases hfound : fields.get keyword with
  | none =>
      rw [hfound] at hget
      cases hget
  | some node =>
      rw [hfound] at hget hrun
      obtain ⟨branches, between, hlift, hrun⟩ := bind_eq_some.mp hrun
      obtain ⟨hbranches, rfl⟩ := lift_eq_some.mp hlift
      obtain rfl := Option.some.inj (hget.symm.trans hbranches)
      obtain ⟨plans, between, hplans, hrun⟩ := bind_eq_some.mp hrun
      have hall := hchild.each hplans
      cases plans with
      | nil => exact absurd hrun failure_ne_some
      | cons first others =>
          dsimp only at hrun
          split_ifs at hrun with hmerges hdiffer
          · simp only [Bool.or_false, decide_eq_true_eq] at hmerges
            exact absurd hmerges hkeyword
          · exact absurd hrun failure_ne_some
          · have hsame := branches_same hall hdiffer
            obtain ⟨planOne, hmemOne, hone⟩ := forall₂_left hall hone
            obtain ⟨planTwo, hmemTwo, htwo⟩ := forall₂_left hall htwo
            rw [← htwo.omits, hsame planTwo hmemTwo, ← hsame planOne hmemOne, hone.omits]
            exact hcovered

/-- A compilation that answers whatever another one answers. -/
def Extends {Result : Type} (part part' : Compile Result) : Prop :=
  ∀ visited result, part visited = some result → part' visited = some result

theorem Extends.refl {Result : Type} (part : Compile Result) : Extends part part :=
  fun _ _ hrun => hrun

theorem Extends.bind {First Second : Type} {part part' : Compile First}
    {next next' : First → Compile Second} (hpart : Extends part part')
    (hnext : ∀ first, Extends (next first) (next' first)) :
    Extends (part >>= next) (part' >>= next') := by
  rintro visited ⟨result, after⟩ hrun
  obtain ⟨first, between, hfirst, hrun⟩ := bind_eq_some.mp hrun
  exact bind_eq_some.mpr ⟨first, between, hpart _ _ hfirst, hnext first _ _ hrun⟩

theorem Extends.refuse {Result : Type} {part part' : Compile Result} (hpart : Extends part part')
    (refused : Prop) [Decidable refused] :
    Extends (if refused then failure >>= fun _ : Unit => part else part)
      (if refused then failure >>= fun _ : Unit => part' else part') := by
  split_ifs
  · exact fun _ _ hrun => absurd hrun failure_bind_ne_some
  · exact hpart

theorem Extends.each {Source Result : Type} {part part' : Source → Compile Result}
    (hpart : ∀ source, Extends (part source) (part' source)) (sources : List Source) :
    Extends (each part sources) (each part' sources) := by
  induction sources with
  | nil => exact .refl _
  | cons first rest ih =>
      exact .bind (hpart first) fun result => .bind ih fun results => .refl _

section Extending

variable {child' : Node Address → Compile Plan}
  (hextends : ∀ node, Extends (child node) (child' node))

include hextends

theorem referencePlan_extends : Extends (referencePlan heap child fields root plan)
    (referencePlan heap child' fields root plan) := by
  rw [referencePlan, referencePlan]
  cases fields.get "$ref" with
  | none => exact .refl _
  | some ref => exact .bind (.refl _) fun target => .bind (hextends target) fun _ => .refl _

theorem propertiesPlan_extends {localeCompare : JsString → JsString → Bool} :
    Extends (propertiesPlan heap child fields localeCompare plan)
      (propertiesPlan heap child' fields localeCompare plan) := by
  rw [propertiesPlan, propertiesPlan]
  cases fields.get "properties" with
  | none => exact .refl _
  | some node =>
      have hentry : ∀ entry : JsString × Node Address,
          Extends (do return (entry.1, ← child entry.2)) (do return (entry.1, ← child' entry.2)) :=
        fun entry => .bind (hextends entry.2) fun _ => .refl _
      exact .bind (.refl _) fun record => .bind (.each hentry _) fun _ => .refl _

theorem arrayPlan_extends : Extends (arrayPlan heap child fields plan)
    (arrayPlan heap child' fields plan) := by
  rw [arrayPlan, arrayPlan]
  refine .bind (.refl _) fun prefixes => ?_
  dsimp only
  by_cases hboth : ((fields.get "prefixItems").isSome &&
      (listOf heap (fields.get "items")).isSome) = true
  · rw [if_pos hboth, if_pos hboth]
    exact .bind (.refl _) fun _ =>
      .bind (.each hextends _) fun plans => .bind (.each hextends _) fun _ => .refl _
  · rw [if_neg hboth, if_neg hboth]
    exact .bind (.each hextends _) fun plans => .bind (.each hextends _) fun _ => .refl _

theorem schemaKeyword_extends (keyword : String) :
    Extends (schemaKeyword child fields keyword) (schemaKeyword child' fields keyword) := by
  rw [schemaKeyword, schemaKeyword]
  cases fields.get keyword with
  | none => exact .refl _
  | some node => exact .bind (hextends node) fun _ => .refl _

theorem recordKeyword_extends (keyword : String) :
    Extends (recordKeyword heap child fields keyword)
      (recordKeyword heap child' fields keyword) := by
  rw [recordKeyword, recordKeyword]
  cases fields.get keyword with
  | none => exact .refl _
  | some node =>
      exact .bind (.refl _) fun record =>
        .bind (.each (fun value => .bind (hextends value) fun _ => .refl _) _) fun _ => .refl _

/-- A run that finds the alternatives agreed is one that merges them all. -/
theorem branchesPlan_extends {keyword : String} (hchild : Faithful heap root child)
    (hplan : Normal plan) :
    Extends (branchesPlan heap child fields false keyword plan)
      (branchesPlan heap child' fields true keyword plan) := by
  rintro visited ⟨result, after⟩ hrun
  rw [branchesPlan] at hrun ⊢
  cases hget : fields.get keyword with
  | none =>
      rw [hget] at hrun
      exact hrun
  | some node =>
      rw [hget] at hrun
      obtain ⟨branches, between, hlift, hrun⟩ := bind_eq_some.mp hrun
      obtain ⟨plans, between', hplans, hrun⟩ := bind_eq_some.mp hrun
      refine bind_eq_some.mpr ⟨branches, between, hlift,
        bind_eq_some.mpr ⟨plans, between', Extends.each hextends branches _ _ hplans, ?_⟩⟩
      have hall := hchild.each hplans
      cases plans with
      | nil => exact hrun
      | cons first others =>
          dsimp only at hrun ⊢
          rw [if_pos (by rw [Bool.or_true])]
          split_ifs at hrun with hmerges hdiffer
          · exact hrun
          · exact absurd hrun failure_ne_some
          · obtain ⟨rfl, rfl⟩ := pure_eq_some.mp hrun
            have hsame := branches_same hall hdiffer
            have hfold := foldl_adds hall hplan
            obtain ⟨source, hsource, hfirst⟩ := forall₂_right hall List.mem_cons_self
            have hmerge := merge_adds hplan hfirst.normal.parts hfirst.omits
            refine pure_eq_some.mpr ⟨?_, rfl⟩
            refine hfold.normal.unique hmerge.normal fun position => ?_
            rw [Bool.eq_iff_iff, hfold.omits, hmerge.omits]
            refine or_congr_right ⟨?_, fun hcovered => ⟨source, hsource, hcovered⟩⟩
            rintro ⟨other, hother, hcovered⟩
            obtain ⟨branch, hmem, hbranch⟩ := forall₂_left hall hother
            rw [← hfirst.omits, ← hsame branch hmem, hbranch.omits]
            exact hcovered

/-- A schema that compiles, with its alternatives merged. -/
theorem walkFields_extends {setting : Setting Address} (hchild : Faithful heap setting.root child) :
    Extends (walkFields heap { setting with unionAlternatives := false } child fields)
      (walkFields heap { setting with unionAlternatives := true } child' fields) := by
  rintro visited ⟨result, after⟩ hrun
  obtain ⟨hreferences, hproperties, hitems, hall, hone, hany, hschemas, hrecords⟩ :=
    walkFields_runs hrun
  have hreferences' := referencePlan_adds hchild normal_public hreferences
  have hproperties' := propertiesPlan_adds hchild hreferences'.normal hproperties
  have hitems' := arrayPlan_adds hchild hproperties'.normal hitems
  have hall' := branchesPlan_adds hchild hitems'.normal (by decide) hall
  have hone' := branchesPlan_adds hchild hall'.normal (by decide) hone
  rw [walkFields]
  refine bind_eq_some.mpr ⟨_, _, referencePlan_extends hextends _ _ hreferences, ?_⟩
  refine bind_eq_some.mpr ⟨_, _, propertiesPlan_extends hextends _ _ hproperties, ?_⟩
  refine bind_eq_some.mpr ⟨_, _, arrayPlan_extends hextends _ _ hitems, ?_⟩
  refine bind_eq_some.mpr
    ⟨_, _, branchesPlan_extends hextends hchild hitems'.normal _ _ hall, ?_⟩
  refine bind_eq_some.mpr ⟨_, _, branchesPlan_extends hextends hchild hall'.normal _ _ hone, ?_⟩
  refine bind_eq_some.mpr ⟨_, _, branchesPlan_extends hextends hchild hone'.normal _ _ hany, ?_⟩
  refine bind_eq_some.mpr
    ⟨_, _, Extends.each (schemaKeyword_extends hextends) _ _ _ hschemas, ?_⟩
  exact bind_eq_some.mpr
    ⟨_, _, Extends.each (recordKeyword_extends hextends) _ _ _ hrecords, rfl⟩

end Extending

theorem walk_extends [DecidableEq Address] (setting : Setting Address) (levels : ℕ)
    (active : List Address) (node : Node Address) :
    Extends (walk heap { setting with unionAlternatives := false } levels active node)
      (walk heap { setting with unionAlternatives := true } levels active node) := by
  induction levels generalizing active node with
  | zero => exact .refl _
  | succ levels ih =>
      rw [walk.eq_def, walk.eq_def]
      refine .bind (.refl _) fun visited => ?_
      by_cases hmany : MAX_SCHEMAS < visited + 1
      · rw [if_pos hmany, if_pos hmany]
        exact fun _ _ hrun => absurd hrun failure_bind_ne_some
      rw [if_neg hmany, if_neg hmany]
      refine .bind (.refl _) fun _ => ?_
      cases node with
      | ref address =>
          dsimp only
          cases heap address with
          | array entries => exact .refl _
          | object fields =>
              dsimp only
              by_cases hactive : address ∈ active
              · rw [if_pos hactive, if_pos hactive]
                exact fun _ _ hrun => absurd hrun failure_bind_ne_some
              rw [if_neg hactive, if_neg hactive]
              have hfaithful : Faithful heap setting.root
                  (walk heap { setting with unionAlternatives := false } levels
                    (address :: active)) :=
                says_of_walk levels (address :: active)
              have hfields : Extends
                  (walkFields heap { setting with unionAlternatives := false }
                    (walk heap { setting with unionAlternatives := false } levels
                      (address :: active)) fields)
                  (walkFields heap { setting with unionAlternatives := true }
                    (walk heap { setting with unionAlternatives := true } levels
                      (address :: active)) fields) :=
                walkFields_extends (ih (address :: active)) hfaithful
              cases fields.get "writeOnly" with
              | none => exact hfields.refuse _
              | some annotation =>
                  cases annotation with
                  | bool value =>
                      cases value with
                      | true => exact .refl _
                      | false => exact hfields.refuse _
                  | _ => exact .refl _
      | _ => exact .refl _

end Connecta.Arguments
