import Connecta.Arguments.Sensitivity

/-!
# What a schema compiles to

Every keyword adds to a plan what the subschemas under it cover, so the plan of a
schema omits what the schema covers.  A schema that compiles holds no private
subschema under another applicator, and its alternatives agree; it then compiles to
the same plan when the alternatives of unions are merged.
-/

namespace Connecta.Arguments

open Connecta.Runtime

variable {Address : Type} (heap : Heap Address) (root : Address)

/-- A plan in normal form that omits what a schema covers. -/
structure Says (node : Node Address) (plan : Plan) : Prop where
  normal : Normal plan
  omits : ∀ position, omits plan position = true ↔ Covered heap root node position

/-- A plan in normal form that omits what another one does, and some places more. -/
structure Adds (places : List Step → Prop) (plan result : Plan) : Prop where
  normal : Normal result
  omits : ∀ position, omits result position = true ↔ omits plan position = true ∨ places position

/-- What a compilation answers for a subschema is what the subschema says. -/
def Faithful (child : Node Address → Compile Plan) : Prop :=
  ∀ node before plan after, child node before = some (plan, after) → Says heap root node plan

variable {heap root} {fields : Fields Address} {child : Node Address → Compile Plan}
  {plan result : Plan} {visited after : ℕ}

/-- What is compiled part by part is what the parts say. -/
theorem Faithful.each {sources : List (Node Address)} {plans : List Plan}
    (hchild : Faithful heap root child)
    (heach : Connecta.Arguments.each child sources visited = some (plans, after)) :
    List.Forall₂ (Says heap root) sources plans := by
  refine (each_eq_some heach).imp fun source plan hruns => ?_
  obtain ⟨before, between, hrun⟩ := hruns
  exact hchild source before plan between hrun

theorem merge_adds {places : List Step → Prop} {other : Plan} (hplan : Normal plan)
    (hother : Parts other) (hplaces : ∀ position, omits other position = true ↔ places position) :
    Adds places plan (merge plan other) := by
  have hunion := merge_isUnion hplan.parts hother
  refine ⟨hunion.normal, fun position => ?_⟩
  rw [hunion.omits, Bool.or_eq_true, hplaces]

theorem adds_nothing {places : List Step → Prop} (hplan : Normal plan)
    (hnone : ∀ position, ¬ places position) : Adds places plan plan :=
  ⟨hplan, fun position => (or_iff_left (hnone position)).symm⟩

/-- The branches of a union that none is told from the first of. -/
theorem branches_same {sources : List (Node Address)} {first : Plan} {others : List Plan}
    (hall : List.Forall₂ (Says heap root) sources (first :: others))
    (hsame : ¬ ((first :: others).any fun branch => !equal branch first) = true) :
    ∀ branch ∈ first :: others, branch = first := by
  intro branch hmem
  obtain ⟨_, -, hbranch⟩ := forall₂_right hall hmem
  obtain ⟨_, -, hfirst⟩ := forall₂_right hall List.mem_cons_self
  refine (hbranch.normal.equal_iff hfirst.normal).mp ?_
  by_contra hdiffers
  refine hsame (List.any_eq_true.mpr ⟨branch, hmem, ?_⟩)
  rw [Bool.eq_false_iff.mpr hdiffers]
  rfl

theorem foldl_adds {sources : List (Node Address)} {plans : List Plan}
    (hall : List.Forall₂ (Says heap root) sources plans) (hplan : Normal plan) :
    Adds (fun position => ∃ source ∈ sources, Covered heap root source position) plan
      (plans.foldl merge plan) := by
  induction hall generalizing plan with
  | nil => exact adds_nothing hplan fun position => nofun
  | cons hfirst _ ih =>
      have hmerge := merge_adds hplan hfirst.normal.parts hfirst.omits
      have hrest := ih hmerge.normal
      refine ⟨hrest.normal, fun position => ?_⟩
      rw [List.foldl_cons, hrest.omits, hmerge.omits, or_assoc]
      simp only [List.mem_cons, exists_eq_or_imp]

/-- What a run over the array keywords has met. -/
theorem arrayPlan_cases
    (hrun : arrayPlan heap child fields plan visited = some (result, after)) :
    ∃ prefixes rest plans between restPlans, ItemSchemas heap fields prefixes rest ∧
      each child prefixes visited = some (plans, between) ∧
        each child rest.toList between = some (restPlans, after) ∧
          result = merge plan (.mk false [] plans restPlans.head?) := by
  rw [arrayPlan] at hrun
  obtain ⟨prefixes, between, hlift, hrun⟩ := bind_eq_some.mp hrun
  obtain ⟨hprefixes, rfl⟩ := lift_eq_some.mp hlift
  by_cases hboth : ((fields.get "prefixItems").isSome &&
      (listOf heap (fields.get "items")).isSome) = true
  · rw [if_pos hboth] at hrun
    exact absurd hrun failure_bind_ne_some
  rw [if_neg hboth] at hrun
  obtain ⟨plans, between, hplans, hrun⟩ := bind_eq_some.mp hrun
  obtain ⟨restPlans, between', hrestPlans, hrun⟩ := bind_eq_some.mp hrun
  obtain ⟨rfl, rfl⟩ := pure_eq_some.mp hrun
  refine ⟨prefixes, _, plans, between, restPlans, ?_, hplans, hrestPlans, rfl⟩
  cases hlist : listOf heap (fields.get "items") with
  | some list =>
      rw [hlist] at hboth hprefixes
      have hnone : fields.get "prefixItems" = none := by
        simpa using hboth
      rw [hnone] at hprefixes
      exact .inl ⟨list, hlist, hnone, (Option.some.inj hprefixes).symm, rfl⟩
  | none =>
      rw [hlist] at hprefixes
      refine .inr ⟨hlist, ?_, rfl⟩
      cases hget : fields.get "prefixItems" with
      | none =>
          rw [hget] at hprefixes
          exact Option.some.inj hprefixes
      | some node =>
          rw [hget] at hprefixes
          cases node with
          | null => exact Option.some.inj hprefixes
          | ref address => exact congrArg (·.getD []) hprefixes
          | _ => cases hprefixes

section Keywords

variable (hchild : Faithful heap root child) (hplan : Normal plan)

include hchild hplan

theorem referencePlan_adds
    (hrun : referencePlan heap child fields root plan visited = some (result, after)) :
    Adds (CoveredBy heap root fields "$ref") plan result := by
  rw [referencePlan] at hrun
  cases hget : fields.get "$ref" with
  | none =>
      rw [hget] at hrun
      obtain ⟨rfl, -⟩ := pure_eq_some.mp hrun
      refine adds_nothing hplan fun position hcovered => ?_
      obtain ⟨ref, target, hsome, -⟩ := coveredBy_reference.mp hcovered
      rw [hget] at hsome
      cases hsome
  | some ref =>
      rw [hget] at hrun
      obtain ⟨target, between, hlift, hrun⟩ := bind_eq_some.mp hrun
      obtain ⟨htarget, rfl⟩ := lift_eq_some.mp hlift
      obtain ⟨other, between, hother, hrun⟩ := bind_eq_some.mp hrun
      obtain ⟨rfl, -⟩ := pure_eq_some.mp hrun
      have hsaid := hchild _ _ _ _ hother
      refine merge_adds hplan hsaid.normal.parts fun position => ?_
      rw [hsaid.omits, coveredBy_reference]
      constructor
      · exact fun hcovered => ⟨ref, target, hget, htarget, hcovered⟩
      · rintro ⟨ref', target', hget', htarget', hcovered⟩
        obtain rfl := Option.some.inj (hget.symm.trans hget')
        obtain rfl := Option.some.inj (htarget.symm.trans htarget')
        exact hcovered

theorem propertiesPlan_adds {localeCompare : JsString → JsString → Bool}
    (hrun : propertiesPlan heap child fields localeCompare plan visited = some (result, after)) :
    Adds (CoveredBy heap root fields "properties") plan result := by
  rw [propertiesPlan] at hrun
  cases hget : fields.get "properties" with
  | none =>
      rw [hget] at hrun
      obtain ⟨rfl, -⟩ := pure_eq_some.mp hrun
      refine adds_nothing hplan fun position hcovered => ?_
      obtain ⟨node, _, _, _, _, hsome, -⟩ := coveredBy_properties.mp hcovered
      rw [hget] at hsome
      cases hsome
  | some node =>
      rw [hget] at hrun
      obtain ⟨record, between, hlift, hrun⟩ := bind_eq_some.mp hrun
      obtain ⟨hrecord, rfl⟩ := lift_eq_some.mp hlift
      obtain ⟨plans, between, hplans, hrun⟩ := bind_eq_some.mp hrun
      obtain ⟨rfl, -⟩ := pure_eq_some.mp hrun
      have hall : List.Forall₂ (fun entry plan => plan.1 = entry.1 ∧ Says heap root entry.2 plan.2)
          record.entries plans := by
        refine (each_eq_some hplans).imp fun entry plan hentry => ?_
        obtain ⟨before, after, hentry⟩ := hentry
        obtain ⟨value, between, hvalue, hentry⟩ := bind_eq_some.mp hentry
        obtain ⟨rfl, -⟩ := pure_eq_some.mp hentry
        exact ⟨rfl, hchild _ _ _ _ hvalue⟩
      set kept := (plans.filter fun entry => sensitive entry.2).insertionSort
        fun one two => localeCompare one.1 two.1 = true
      have hkept : ∀ entry, entry ∈ kept ↔ entry ∈ plans ∧ sensitive entry.2 = true := by
        intro entry
        rw [List.mem_insertionSort, List.mem_filter]
      have hkeys : (kept.map Prod.fst).Nodup := by
        have hnames : plans.map Prod.fst = record.entries.map Prod.fst := by
          refine List.ext_get (by simp [hall.length_eq]) fun index hindex hindex' => ?_
          simpa using (hall.get (by simpa using hindex') (by simpa using hindex)).1
        have hplans : (plans.map Prod.fst).Nodup := hnames ▸ record.distinct
        exact ((List.perm_insertionSort _ _).map _).nodup_iff.mpr
          (hplans.sublist (List.filter_sublist.map _))
      refine merge_adds hplan ⟨fun entry hmem => ?_, fun entry hmem => ((hkept entry).mp hmem).2,
        nofun, nofun⟩ fun position => ?_
      · obtain ⟨source, -, -, hsaid⟩ := forall₂_right hall ((hkept entry).mp hmem).1
        exact hsaid.normal
      · rw [coveredBy_properties]
        constructor
        · intro homits
          cases position with
          | nil => cases homits
          | cons step rest =>
              cases step with
              | index index =>
                  rw [omits, Bool.or_eq_true] at homits
                  rcases homits with homits | homits
                  · cases homits
                  · exact absurd ((omits_public rest).symm.trans homits) Bool.false_ne_true
              | key name =>
                  rw [omits, Bool.or_eq_true] at homits
                  replace homits := homits.resolve_left Bool.false_ne_true
                  by_cases hname : name ∈ kept.map Prod.fst
                  · obtain ⟨entry, hentry, rfl, heq⟩ := field_of_mem hname
                    obtain ⟨source, hsource, hkey, hsaid⟩ :=
                      forall₂_right hall ((hkept entry).mp hentry).1
                    refine ⟨node, record, entry.1, source.2, rest, hget, hrecord,
                      hkey ▸ hsource, rfl, ?_⟩
                    exact (hsaid.omits rest).mp ((congrArg (omits · rest) heq).symm.trans homits)
                  · exact absurd ((omits_public rest).symm.trans
                      ((congrArg (omits · rest) (field_of_notMem hname)).symm.trans homits))
                      Bool.false_ne_true
        · rintro ⟨node', record', name, source, rest, hget', hrecord', hmem, rfl, hcovered⟩
          obtain rfl := Option.some.inj (hget.symm.trans hget')
          obtain rfl := Option.some.inj (hrecord.symm.trans hrecord')
          obtain ⟨⟨name', plan'⟩, hentry, hkey, hsaid⟩ := forall₂_left hall hmem
          obtain rfl : name' = name := hkey
          have homits := (hsaid.omits rest).mpr hcovered
          have hfield := field_eq hkeys ((hkept _).mpr ⟨hentry, sensitive_of_omits homits⟩)
          rw [omits, Bool.or_eq_true]
          exact .inr ((congrArg (omits · rest) hfield).trans homits)

theorem arrayPlan_adds
    (hrun : arrayPlan heap child fields plan visited = some (result, after)) :
    Adds (CoveredBy heap root fields "items") plan result := by
  obtain ⟨prefixes, rest, plans, between, restPlans, hlists, hplans, hrestPlans, rfl⟩ :=
    arrayPlan_cases hrun
  have hall := hchild.each hplans
  have hallRest := hchild.each hrestPlans
  have hhead : (rest = none ∧ restPlans.head? = none) ∨
      ∃ node plan, rest = some node ∧ restPlans.head? = some plan ∧ Says heap root node plan := by
    cases rest with
    | none =>
        cases hallRest
        exact .inl ⟨rfl, rfl⟩
    | some node =>
        obtain - | ⟨hsaid, -⟩ := hallRest
        exact .inr ⟨node, _, rfl, rfl, hsaid⟩
  refine merge_adds hplan ⟨List.forall_mem_nil _, List.forall_mem_nil _, fun part hmem => ?_,
    fun part hitems => ?_⟩ fun position => ?_
  · obtain ⟨source, -, hsaid⟩ := forall₂_right hall hmem
    exact hsaid.normal
  · rcases hhead with ⟨-, hnone⟩ | ⟨node, plan, -, hsome, hsaid⟩
    · exact absurd (hitems.symm.trans hnone) (by simp)
    · obtain rfl := Option.some.inj (hitems.symm.trans hsome)
      exact hsaid.normal
  · have hitem : ∀ index below,
        omits (item (.mk false [] plans restPlans.head?) index) below = true ↔
          (∃ child, prefixes[index]? = some child ∧ Covered heap root child below) ∨
            prefixes.length ≤ index ∧
              ∃ child, rest = some child ∧ Covered heap root child below := by
      intro index below
      rcases lt_or_ge index prefixes.length with hindex | hindex
      · have hindex' : index < plans.length := hall.length_eq ▸ hindex
        have hsaid := hall.get hindex hindex'
        rw [item_of_lt (by exact hindex'), List.getElem?_eq_getElem hindex]
        refine (hsaid.omits below).trans ⟨fun hcovered => .inl ⟨_, rfl, hcovered⟩, ?_⟩
        rintro (⟨child, heq, hcovered⟩ | ⟨hbeyond, -⟩)
        · rw [List.get_eq_getElem, Option.some.inj heq]
          exact hcovered
        · exact absurd hindex (Nat.not_lt.mpr hbeyond)
      · rw [item_of_le (by exact hall.length_eq ▸ hindex), List.getElem?_eq_none hindex]
        rcases hhead with ⟨hnone, hhead⟩ | ⟨node, plan, hsome, hhead, hsaid⟩
        · rw [Plan.items, hhead, hnone]
          simp
        · rw [Plan.items, hhead, hsome]
          refine (hsaid.omits below).trans ⟨fun hcovered => .inr ⟨hindex, _, rfl, hcovered⟩, ?_⟩
          rintro (⟨child, heq, -⟩ | ⟨-, child, heq, hcovered⟩)
          · cases heq
          · exact Option.some.inj heq ▸ hcovered
    rw [coveredBy_items hlists]
    cases position with
    | nil =>
        constructor
        · intro homits
          cases homits
        · rintro ⟨index, below, heq, -⟩
          cases heq
    | cons step below =>
        rw [omits.eq_def]
        cases step with
        | key name =>
            constructor
            · intro homits
              exact absurd ((omits_public below).symm.trans homits) Bool.false_ne_true
            · rintro ⟨index, below', heq, -⟩
              cases heq
        | index index =>
            refine (hitem index below).trans ⟨fun hplaces => ⟨index, below, rfl, hplaces⟩, ?_⟩
            rintro ⟨index', below', heq, hplaces⟩
            obtain ⟨hstep, rfl⟩ := List.cons.inj heq
            obtain rfl := Step.index.inj hstep
            exact hplaces

theorem branchesPlan_adds {unionAlternatives : Bool} {keyword : String}
    (hkeyword : keyword ∈ ["allOf", "oneOf", "anyOf"])
    (hrun : branchesPlan heap child fields unionAlternatives keyword plan visited =
      some (result, after)) : Adds (CoveredBy heap root fields keyword) plan result := by
  rw [branchesPlan] at hrun
  cases hget : fields.get keyword with
  | none =>
      rw [hget] at hrun
      obtain ⟨rfl, -⟩ := pure_eq_some.mp hrun
      refine adds_nothing hplan fun position hcovered => ?_
      obtain ⟨list, _, hsome, -⟩ := (coveredBy_branches hkeyword).mp hcovered
      rw [hget] at hsome
      cases hsome
  | some node =>
      rw [hget] at hrun
      obtain ⟨branches, between, hlift, hrun⟩ := bind_eq_some.mp hrun
      obtain ⟨hbranches, rfl⟩ := lift_eq_some.mp hlift
      obtain ⟨plans, between, hplans, hrun⟩ := bind_eq_some.mp hrun
      have hall := hchild.each hplans
      have hplaces : ∀ position, CoveredBy heap root fields keyword position ↔
          ∃ source ∈ branches, Covered heap root source position := by
        intro position
        rw [coveredBy_branches hkeyword, hget]
        constructor
        · rintro ⟨list, source, hlist, hmem, hcovered⟩
          obtain rfl := Option.some.inj (hbranches.symm.trans hlist)
          exact ⟨source, hmem, hcovered⟩
        · rintro ⟨source, hmem, hcovered⟩
          exact ⟨branches, source, hbranches, hmem, hcovered⟩
      have hfold := foldl_adds hall hplan
      cases plans with
      | nil => exact absurd hrun failure_ne_some
      | cons first others =>
          dsimp only at hrun
          split_ifs at hrun with hmerges hdiffer
          · obtain ⟨rfl, -⟩ := pure_eq_some.mp hrun
            exact ⟨hfold.normal, fun position => by rw [hfold.omits, hplaces]⟩
          · exact absurd hrun failure_ne_some
          · obtain ⟨rfl, -⟩ := pure_eq_some.mp hrun
            have hsame := branches_same hall hdiffer
            obtain ⟨source, hsource, hfirst⟩ := forall₂_right hall List.mem_cons_self
            refine merge_adds hplan hfirst.normal.parts fun position => ?_
            rw [hplaces, hfirst.omits]
            constructor
            · exact fun hcovered => ⟨source, hsource, hcovered⟩
            · rintro ⟨other, hother, hcovered⟩
              obtain ⟨branch, hmem, hbranch⟩ := forall₂_left hall hother
              rw [← hfirst.omits, ← hsame branch hmem, hbranch.omits]
              exact hcovered

end Keywords

section Walk

variable {setting : Setting Address}

variable (heap child fields setting) in
/-- The runs over the keywords of a schema, each from where the one before it ends. -/
inductive FieldRuns (visited : ℕ) (result : Plan) (after : ℕ) : Prop where
  | mk {references properties items all one : Plan}
      {afterReferences afterProperties afterItems afterAll afterOne afterAny afterSchemas : ℕ}
      {schemas records : List Unit}
      (hreferences : referencePlan heap child fields setting.root PUBLIC visited =
        some (references, afterReferences))
      (hproperties : propertiesPlan heap child fields setting.localeCompare references
        afterReferences = some (properties, afterProperties))
      (hitems : arrayPlan heap child fields properties afterProperties = some (items, afterItems))
      (hall : branchesPlan heap child fields setting.unionAlternatives "allOf" items afterItems =
        some (all, afterAll))
      (hone : branchesPlan heap child fields setting.unionAlternatives "oneOf" all afterAll =
        some (one, afterOne))
      (hany : branchesPlan heap child fields setting.unionAlternatives "anyOf" one afterOne =
        some (result, afterAny))
      (hschemas : each (schemaKeyword child fields) SCHEMA_KEYWORDS afterAny =
        some (schemas, afterSchemas))
      (hrecords : each (recordKeyword heap child fields) RECORD_KEYWORDS afterSchemas =
        some (records, after)) : FieldRuns visited result after

theorem walkFields_runs
    (hrun : walkFields heap setting child fields visited = some (result, after)) :
    FieldRuns heap fields child setting visited result after := by
  rw [walkFields] at hrun
  obtain ⟨_, _, hreferences, hrun⟩ := bind_eq_some.mp hrun
  obtain ⟨_, _, hproperties, hrun⟩ := bind_eq_some.mp hrun
  obtain ⟨_, _, hitems, hrun⟩ := bind_eq_some.mp hrun
  obtain ⟨_, _, hall, hrun⟩ := bind_eq_some.mp hrun
  obtain ⟨_, _, hone, hrun⟩ := bind_eq_some.mp hrun
  obtain ⟨_, _, hany, hrun⟩ := bind_eq_some.mp hrun
  obtain ⟨_, _, hschemas, hrun⟩ := bind_eq_some.mp hrun
  obtain ⟨_, _, hrecords, hrun⟩ := bind_eq_some.mp hrun
  obtain ⟨rfl, rfl⟩ := pure_eq_some.mp hrun
  exact ⟨hreferences, hproperties, hitems, hall, hone, hany, hschemas, hrecords⟩

theorem walkFields_says (hchild : Faithful heap setting.root child) {address : Address}
    (hcell : heap address = .object fields) (hpublic : ownsWriteOnly (heap address) = false)
    (hrun : walkFields heap setting child fields visited = some (result, after)) :
    Says heap setting.root (.ref address) result := by
  obtain ⟨hreferences, hproperties, hitems, hall, hone, hany, -, -⟩ := walkFields_runs hrun
  replace hreferences := referencePlan_adds hchild normal_public hreferences
  replace hproperties := propertiesPlan_adds hchild hreferences.normal hproperties
  replace hitems := arrayPlan_adds hchild hproperties.normal hitems
  replace hall := branchesPlan_adds hchild hitems.normal (by decide) hall
  replace hone := branchesPlan_adds hchild hall.normal (by decide) hone
  replace hany := branchesPlan_adds hchild hone.normal (by decide) hany
  refine ⟨hany.normal, fun position => ?_⟩
  rw [covered_object hcell hpublic, coveredBy_iff, hany.omits, hone.omits, hall.omits,
    hitems.omits, hproperties.omits, hreferences.omits, omits_public]
  simp only [Bool.false_eq_true, false_or, or_assoc]

variable [DecidableEq Address]

/-- What a walk that answers has met. -/
theorem walk_cases {levels : ℕ} {active : List Address} {node : Node Address}
    (hrun : walk heap setting (levels + 1) active node visited = some (result, after)) :
    (∃ value, node = .bool value ∧ result = PUBLIC) ∨
      ∃ address fields, node = .ref address ∧ heap address = .object fields ∧
        ((ownsWriteOnly (heap address) = true ∧ result = OMIT) ∨
          (ownsWriteOnly (heap address) = false ∧
            walkFields heap setting (walk heap setting levels (address :: active)) fields
              (visited + 1) = some (result, after))) := by
  rw [walk.eq_def] at hrun
  obtain ⟨before, between, hget, hrun⟩ := bind_eq_some.mp hrun
  obtain ⟨rfl, rfl⟩ : visited = before ∧ visited = between := Prod.mk.inj (Option.some.inj hget)
  split_ifs at hrun with hmany
  · exact absurd hrun failure_bind_ne_some
  obtain ⟨_, between, hset, hrun⟩ := bind_eq_some.mp hrun
  obtain rfl : visited + 1 = between := (Prod.mk.inj (Option.some.inj hset)).2
  cases node with
  | bool value =>
      obtain ⟨rfl, -⟩ := pure_eq_some.mp hrun
      exact .inl ⟨value, rfl, rfl⟩
  | ref address =>
      cases hcell : heap address with
      | array entries =>
          dsimp only at hrun
          rw [hcell] at hrun
          exact absurd hrun failure_ne_some
      | object fields =>
          dsimp only at hrun
          rw [hcell] at hrun
          dsimp only at hrun
          by_cases hactive : address ∈ active
          · rw [if_pos hactive] at hrun
            exact absurd hrun failure_bind_ne_some
          rw [if_neg hactive] at hrun
          refine .inr ⟨address, fields, rfl, hcell, ?_⟩
          rw [hcell]
          have hwalk : (if (address ≠ setting.root ∧ (fields.get "$id").isSome) ∨
                (fields.get "$dynamicRef").isSome ∨ (fields.get "$recursiveRef").isSome then
                  failure >>= fun _ : Unit =>
                    walkFields heap setting (walk heap setting levels (address :: active)) fields
                else walkFields heap setting (walk heap setting levels (address :: active)) fields)
                  (visited + 1) = some (result, after) →
              walkFields heap setting (walk heap setting levels (address :: active)) fields
                (visited + 1) = some (result, after) := by
            intro hrun
            split_ifs at hrun with hidentified
            · exact absurd hrun (@failure_bind_ne_some Unit Plan _ _ _)
            · exact hrun
          cases hget : fields.get "writeOnly" with
          | none =>
              rw [hget] at hrun
              exact .inr ⟨by rw [ownsWriteOnly, hget], hwalk hrun⟩
          | some annotation =>
              rw [hget] at hrun
              cases annotation with
              | bool value =>
                  have hmark : ownsWriteOnly (.object fields) = value := by
                    rw [ownsWriteOnly, hget]
                  cases value with
                  | true => exact .inl ⟨hmark, (pure_eq_some.mp hrun).1.symm⟩
                  | false => exact .inr ⟨hmark, hwalk hrun⟩
              | _ => exact absurd hrun failure_ne_some
  | _ => exact absurd hrun failure_ne_some

theorem says_of_walk (levels : ℕ) (active : List Address) :
    Faithful heap setting.root (walk heap setting levels active) := by
  induction levels generalizing active with
  | zero =>
      intro node before plan after hrun
      exact absurd hrun failure_ne_some
  | succ levels ih =>
      intro node before plan after hrun
      rcases walk_cases hrun with ⟨value, rfl, rfl⟩ |
        ⟨address, fields, rfl, hcell, ⟨hprivate, rfl⟩ | ⟨hpublic, hrun⟩⟩
      · refine ⟨normal_public, fun position => ?_⟩
        rw [omits_public]
        exact iff_of_false Bool.false_ne_true (not_covered (fun _ _ heq => by cases heq) position)
      · exact ⟨.omitted, fun position =>
          iff_of_true (omits_omit position) (covered_of_writeOnly (by exact hprivate) position)⟩
      · exact walkFields_says (ih (address :: active)) hcell hpublic hrun

end Walk

end Connecta.Arguments
