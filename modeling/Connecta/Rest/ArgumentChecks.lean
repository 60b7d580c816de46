import Connecta.Rest.SchemaChecks

/-!
# Calls that an index lets through

A call without findings conforms to its operation, unless a name that every object inherits
stands in for a declared one; a call that conforms is let through.
-/

namespace Connecta.Rest

open Connecta.Runtime
open Connecta.Runtime.JsString (ofAscii)
open Connecta.Arguments (Issue)
open Connecta.Results (ParsedValue)

/-- Only what is declared or present counts as such. -/
def declaredOnly : Reading := ⟨[], false⟩

/-! ## Names that are inherited -/

/-- In an object that is read against a node, a name of `Object.prototype` passes for a
property that the node does not have, or for a required member that is missing. -/
def Lends (schema : SchemaNode) (members : List (JsString × ParsedValue)) : Prop :=
  (∃ member ∈ members, member.1 ∈ objectPrototype ∧ childOf [] schema member.1 = none ∧
    (schema.p.isSome || schema.m.isSome) = true) ∨
  ∃ key ∈ schema.r, key ∈ objectPrototype ∧ ParsedValue.get members key = none

/-- Some object of a value lends names to the node it is read against. -/
inductive Borrows (nodes : List SchemaNode) : SchemaNode → ParsedValue → Prop where
  | here {node : SchemaNode} {members : List (JsString × ParsedValue)} :
      (deref nodes node).x = false → (deref nodes node).a = none →
      Lends (deref nodes node) members → Borrows nodes node (.object members)
  | branch {node branch : SchemaNode} {branches : List SchemaNode} {value : ParsedValue} :
      (deref nodes node).x = false → (deref nodes node).a = some branches →
      branch ∈ branches → Borrows nodes branch value → Borrows nodes node value
  | property {node child : SchemaNode} {members : List (JsString × ParsedValue)}
      {member : JsString × ParsedValue} :
      (deref nodes node).x = false → (deref nodes node).a = none → member ∈ members →
      childOf [] (deref nodes node) member.1 = some child →
      Borrows nodes child member.2 → Borrows nodes node (.object members)
  | other {node other : SchemaNode} {members : List (JsString × ParsedValue)}
      {member : JsString × ParsedValue} :
      (deref nodes node).x = false → (deref nodes node).a = none → member ∈ members →
      childOf [] (deref nodes node) member.1 = none → (deref nodes node).m = some other →
      Borrows nodes other member.2 → Borrows nodes node (.object members)
  | item {node items : SchemaNode} {elements : List ParsedValue} {element : ParsedValue} :
      (deref nodes node).x = false → (deref nodes node).a = none →
      (deref nodes node).i = some items → element ∈ elements →
      Borrows nodes items element → Borrows nodes node (.array elements)

section Names

variable {nodes : List SchemaNode} {site : Site} {node schema : SchemaNode} {value : ParsedValue}
  {key : JsString}

theorem childOf_declared {child : SchemaNode} (hchild : childOf [] schema key = some child)
    (inherited : List JsString) : childOf inherited schema key = some child := by
  rw [childOf] at hchild ⊢
  cases hfound : (schema.p.getD []).find? fun entry => entry.1 = key with
  | some entry =>
      rw [hfound] at hchild
      exact hchild
  | none =>
      rw [hfound] at hchild
      exact absurd hchild (by simp)

/-- A name is held against a declared property, or is inherited and held against nothing. -/
theorem childOf_cases {inherited : List JsString} {child : SchemaNode}
    (hchild : childOf inherited schema key = some child) :
    childOf [] schema key = some child ∨
      childOf [] schema key = none ∧ key ∈ inherited ∧ child = {} := by
  rw [childOf] at hchild ⊢
  cases hfound : (schema.p.getD []).find? fun entry => entry.1 = key with
  | some entry =>
      rw [hfound] at hchild
      exact .inl hchild
  | none =>
      rw [hfound] at hchild
      dsimp only at hchild
      split_ifs at hchild with hinherited
      exact .inr ⟨rfl, hinherited, (Option.some.inj hchild).symm⟩

theorem childOf_none {inherited : List JsString} (hchild : childOf inherited schema key = none) :
    childOf [] schema key = none := by
  cases hdeclared : childOf [] schema key with
  | none => rfl
  | some child =>
      rw [childOf_declared hdeclared inherited] at hchild
      exact absurd hchild nofun

theorem missing_declared {members : List (JsString × ParsedValue)}
    (hpresent : missing [] members key = false) (inherited : List JsString) :
    missing inherited members key = false := by
  rw [missing, Bool.and_eq_false_iff] at hpresent ⊢
  exact hpresent.elim .inl nofun

/-- What is admitted without inherited names is admitted with them. -/
theorem admits_inheriting (hadmits : Admits declaredOnly nodes site node value) :
    Admits inheriting nodes site node value := by
  have hle : Admits declaredOnly nodes site ≤ Admits inheriting nodes site := by
    apply OrderHom.lfp_le
    intro node value hfits
    change Fits declaredOnly site _ (deref nodes node) value at hfits
    rw [admits_iff]
    cases hfits with
    | truncated htruncated => exact .truncated htruncated
    | nullable hinhabited hnullable => exact .nullable hinhabited hnullable
    | unset hunset hvalue => exact .unset hunset hvalue
    | given hgiven hshaped =>
        refine .given hgiven ?_
        unfold Shaped at hshaped ⊢
        split at hshaped
        · exact hshaped
        · exact hshaped
        · split_ifs at hshaped ⊢
          · cases value with
            | object members =>
                exact {
                  child := fun member hmember child hchild => by
                    rcases childOf_cases hchild with hdeclared | ⟨-, -, rfl⟩
                    · exact hshaped.child member hmember child hdeclared
                    · exact admits_empty
                  other := fun member hmember hchild =>
                    hshaped.other member hmember (childOf_none hchild)
                  closed := fun member hmember hchild =>
                    hshaped.closed member hmember (childOf_none hchild)
                  required := fun key hkey => missing_declared (hshaped.required key hkey) _ }
            | _ => exact hshaped
          · exact hshaped
          · exact hshaped
  exact hle node value hadmits

/-- Members that fit with inherited names fit without them where none is lent. -/
theorem membersFit_declaredOnly {admits admits' : SchemaNode → ParsedValue → Prop}
    {members : List (JsString × ParsedValue)} (hfit : MembersFit inheriting admits schema members)
    (hlends : ¬ Lends schema members)
    (hproperty : ∀ member ∈ members, ∀ child, childOf [] schema member.1 = some child →
      admits child member.2 → admits' child member.2)
    (hother : ∀ member ∈ members, childOf [] schema member.1 = none →
      ∀ other, schema.m = some other → admits other member.2 → admits' other member.2) :
    MembersFit declaredOnly admits' schema members := by
  rw [Lends, not_or] at hlends
  obtain ⟨hnames, hrequired⟩ := hlends
  push Not at hnames hrequired
  have hinherited (member : JsString × ParsedValue) (hmember : member ∈ members)
      (hchild : childOf [] schema member.1 = none)
      (hclosed : (schema.p.isSome || schema.m.isSome) = true) :
      childOf objectPrototype schema member.1 = none := by
    cases hfound : childOf objectPrototype schema member.1 with
    | none => rfl
    | some child =>
        rcases childOf_cases hfound with hdeclared | ⟨-, hinherited, -⟩
        · exact absurd (hchild.symm.trans hdeclared) nofun
        · exact absurd hclosed (hnames member hmember hinherited hchild)
  refine ⟨?_, ?_, ?_, ?_⟩
  · intro member hmember child hchild
    exact hproperty member hmember child hchild
      (hfit.child member hmember child (childOf_declared hchild _))
  · intro member hmember hchild other hm
    have hnone := hinherited member hmember hchild (by simp [hm])
    exact hother member hmember hchild other hm (hfit.other member hmember hnone other hm)
  · intro member hmember hchild hm
    by_contra hp
    have hnone := hinherited member hmember hchild (by simp [Option.isSome_iff_ne_none.mpr hp])
    exact hp (hfit.closed member hmember hnone hm)
  · intro key hkey
    have hpresent := hfit.required key hkey
    change missing objectPrototype members key = false at hpresent
    rw [missing, Bool.and_eq_false_iff] at hpresent
    change missing [] members key = false
    rw [missing, Bool.and_eq_false_iff]
    rcases hpresent with hpresent | hinherits
    · exact .inl hpresent
    · have hkept := hrequired key hkey (by simpa using hinherits)
      exact .inl (by simpa [Option.isNone_eq_false_iff, Option.isSome_iff_ne_none] using hkept)

/-- What is admitted with inherited names is admitted without them where none is lent. -/
theorem admits_declaredOnly (hadmits : Admits inheriting nodes site node value)
    (hborrows : ¬ Borrows nodes node value) : Admits declaredOnly nodes site node value := by
  have hle : Admits inheriting nodes site ≤ fun node value =>
      ¬ Borrows nodes node value → Admits declaredOnly nodes site node value := by
    apply OrderHom.lfp_le
    intro node value hfits hborrows
    change Fits inheriting site _ (deref nodes node) value at hfits
    rw [admits_iff]
    cases hfits with
    | truncated htruncated => exact .truncated htruncated
    | nullable hinhabited hnullable => exact .nullable hinhabited hnullable
    | unset hunset hvalue => exact .unset hunset hvalue
    | given hgiven hshaped =>
        cases hwhole : (deref nodes node).x with
        | true => exact .truncated hwhole
        | false =>
            refine .given hgiven ?_
            unfold Shaped at hshaped ⊢
            cases hunion : (deref nodes node).a with
            | some branches =>
                rw [hunion] at hshaped
                rcases hshaped with ⟨branch, hbranch, hadmits⟩ | hempty
                · exact .inl ⟨branch, hbranch, hadmits fun hlent =>
                    hborrows (.branch hwhole hunion hbranch hlent)⟩
                · exact .inr hempty
            | none =>
                rw [hunion] at hshaped
                cases hoptions : (deref nodes node).options value with
                | some options =>
                    rw [hoptions] at hshaped
                    exact hshaped
                | none =>
                    rw [hoptions] at hshaped
                    dsimp only at hshaped ⊢
                    split_ifs at hshaped ⊢
                    · cases value with
                      | object members =>
                          exact membersFit_declaredOnly hshaped
                            (fun hlends => hborrows (.here hwhole hunion hlends))
                            (fun member hmember child hchild hadmits => hadmits fun hlent =>
                              hborrows (.property hwhole hunion hmember hchild hlent))
                            fun member hmember hchild other hother hadmits =>
                              hadmits fun hlent =>
                                hborrows (.other hwhole hunion hmember hchild hother hlent)
                      | _ => exact hshaped
                    · cases value with
                      | array elements =>
                          exact fun item hitem items hitems => hshaped item hitem items hitems
                            fun hlent => hborrows (.item hwhole hunion hitems hitem hlent)
                      | _ => exact hshaped
                    · exact hshaped
  exact hle node value hadmits hborrows

end Names

/-! ## Calls -/

def queryParams (details : Details) (row : ℕ) : List ParamRow :=
  ((details.o[row]?).join.elim [] DetailsRow.params).filter ParamRow.inQuery

def bodyRow (details : Details) (row : ℕ) : Option BodyRow :=
  (details.o[row]?).join.bind DetailsRow.body

/-- The query parameter of a name. -/
def paramOf (details : Details) (row : ℕ) (name : JsString) : Option ParamRow :=
  (queryParams details row).find? fun param => param.name = name

/-- A call conforms: its names are declared query parameters that admit their values, no
required one is missing, and its body is admitted, or may be left out. -/
structure Conforms (reading : Reading) (details : Details) (row : ℕ) (query : Query)
    (body : Option ParsedValue) : Prop where
  names : ∀ entry ∈ query, ∀ value, entry.2 = some value →
    ∃ param, paramOf details row entry.1 = some param ∧
      Admits reading details.d .query param.schema value
  required : ∀ param ∈ queryParams details row, param.required = true →
    absent reading.inherited query param.name = false
  body : match body, bodyRow details row with
    | some value, some bodyRow => Admits reading details.d .body bodyRow.schema value
    | some _, none => False
    | none, some bodyRow => bodyRow.required = false
    | none, none => True

/-- A name that is inherited is lent somewhere in a call: to an object of the query or the
body, or for a required parameter that is missing. -/
inductive CallBorrows (details : Details) (row : ℕ) (query : Query)
    (body : Option ParsedValue) : Prop where
  | value {entry : JsString × Option ParsedValue} {value : ParsedValue} {param : ParamRow} :
      entry ∈ query → entry.2 = some value → paramOf details row entry.1 = some param →
      Borrows details.d param.schema value → CallBorrows details row query body
  | required {param : ParamRow} : param ∈ queryParams details row → param.required = true →
      param.name ∈ objectPrototype → absent [] query param.name = true →
      CallBorrows details row query body
  | body {value : ParsedValue} {row' : BodyRow} : body = some value →
      bodyRow details row = some row' → Borrows details.d row'.schema value →
      CallBorrows details row query body

section Calls

variable {toLowerCase : JsString → JsString} {details : Details} {row : ℕ}

theorem checkName_decides {levels : ℕ}
    (hparams : ∀ param ∈ queryParams details row, ∀ value at',
      Decides (checkNode toLowerCase details.d .query levels param.schema value at')
        (Admits inheriting details.d .query param.schema value))
    (entry : JsString × Option ParsedValue) :
    Decides (fun issues => checkName toLowerCase details levels (queryParams details row) issues
      entry) (∀ value, entry.2 = some value → ∃ param, paramOf details row entry.1 = some param ∧
        Admits inheriting details.d .query param.schema value) := by
  unfold checkName
  cases hvalue : entry.2 with
  | none => exact decides_ok.congr (iff_of_true trivial (by simp))
  | some value =>
      dsimp only [paramOf]
      cases hparam : (queryParams details row).find? fun param => param.name = entry.1 with
      | none => exact (decides_issue _).congr (by simp)
      | some param =>
          have hmember := List.mem_of_find?_eq_some hparam
          exact (hparams param hmember value _).congr (by simp)

theorem checkBody_decides {levels : ℕ}
    (hbody : ∀ bodyRow' ∈ bodyRow details row, ∀ value at',
      Decides (checkNode toLowerCase details.d .body levels bodyRow'.schema value at')
        (Admits inheriting details.d .body bodyRow'.schema value)) (body : Option ParsedValue) :
    Decides (checkBody toLowerCase details levels (bodyRow details row) body)
      (match body, bodyRow details row with
        | some value, some bodyRow => Admits inheriting details.d .body bodyRow.schema value
        | some _, none => False
        | none, some bodyRow => bodyRow.required = false
        | none, none => True) := by
  unfold checkBody
  cases hrow : bodyRow details row with
  | none =>
      cases body with
      | none => exact decides_ok
      | some value => exact decides_issue _
  | some row' =>
      cases body with
      | none =>
          dsimp only
          cases hrequired : row'.required with
          | true => exact (decides_issue _).congr (by simp)
          | false => exact decides_ok.congr (by simp)
      | some value => exact hbody row' hrow value _

/-- Enough levels of the walk find nothing exactly in a call that conforms, where inherited
names count as declared. -/
theorem findings_decide (toLowerCase : JsString → JsString) (details : Details) (row : ℕ) :
    ∀ᶠ levels in Filter.atTop, ∀ query body,
      ∃ issues, findings toLowerCase details levels row query body = .ok issues ∧
        (issues = [] ↔ Conforms inheriting details row query body) := by
  have hparams : ∀ᶠ levels in Filter.atTop, ∀ param ∈ queryParams details row, ∀ value at',
      Decides (checkNode toLowerCase details.d .query levels param.schema value at')
        (Admits inheriting details.d .query param.schema value) :=
    (Filter.eventually_all_finite (List.finite_toSet _)).mpr fun param _ =>
      checkNode_decides details.acyclic (show Site.query ≠ .path by decide) param.schema
  have hbody : ∀ᶠ levels in Filter.atTop, ∀ row' ∈ bodyRow details row, ∀ value at',
      Decides (checkNode toLowerCase details.d .body levels row'.schema value at')
        (Admits inheriting details.d .body row'.schema value) := by
    cases hrow : bodyRow details row with
    | none => exact Filter.Eventually.of_forall fun levels row' hmember => absurd hmember nofun
    | some row' =>
        have hnode := @checkNode_decides toLowerCase details.d .body details.acyclic (by decide)
          row'.schema
        refine hnode.mono fun levels hlevels row'' hmember => ?_
        obtain rfl := Option.some.inj hmember
        exact hlevels
  refine (hparams.and hbody).mono fun levels hlevels query body => ?_
  have hnames := @decides_fold _ _ _ query fun entry _ => checkName_decides hlevels.1 entry
  have hmissing := decides_append (((queryParams details row).filter fun param =>
    param.required && absent objectPrototype query param.name).map fun param =>
      missingIssue (ofAscii "/query") param.name)
  obtain ⟨issues, hissues, hempty⟩ :=
    ((hnames.then hmissing).then (checkBody_decides hlevels.2 body)) []
  refine ⟨issues, ?_, ?_⟩
  · rw [← hissues]
    change (query.foldlM (checkName toLowerCase details levels (queryParams details row)) [] >>=
      fun issues => checkBody toLowerCase details levels (bodyRow details row) body
        (issues ++ _)) = _
    dsimp only
    cases query.foldlM (checkName toLowerCase details levels (queryParams details row)) [] with
    | error stopped => rfl
    | ok named => rfl
  · rw [hempty, and_iff_right rfl, List.map_eq_nil_iff, List.filter_eq_nil_iff]
    constructor
    · rintro ⟨⟨hnames, hpresent⟩, hbody⟩
      refine ⟨hnames, fun param hparam hrequired => ?_, hbody⟩
      have hkept := hpresent param hparam
      rwa [hrequired, Bool.true_and, Bool.not_eq_true] at hkept
    · intro hconforms
      refine ⟨⟨hconforms.names, fun param hparam => ?_⟩, hconforms.body⟩
      cases hrequired : param.required with
      | false => exact Bool.false_ne_true
      | true =>
          rw [Bool.true_and]
          exact ne_true_of_eq_false (hconforms.required param hparam hrequired)

theorem Conforms.inheriting {query : Query} {body : Option ParsedValue}
    (hconforms : Conforms declaredOnly details row query body) :
    Conforms Rest.inheriting details row query body where
  names entry hentry value hvalue := by
    obtain ⟨param, hparam, hadmits⟩ := hconforms.names entry hentry value hvalue
    exact ⟨param, hparam, admits_inheriting hadmits⟩
  required param hparam hrequired := by
    have hpresent := hconforms.required param hparam hrequired
    rw [absent] at hpresent ⊢
    split at hpresent
    · exact hpresent
    · exact absurd hpresent (by simp [declaredOnly])
  body := by
    have hbody := hconforms.body
    cases hrow : bodyRow details row with
    | none =>
        rw [hrow] at hbody
        cases body with
        | none => exact hbody
        | some value => exact hbody
    | some row' =>
        rw [hrow] at hbody
        cases body with
        | none => exact hbody
        | some value => exact admits_inheriting hbody

theorem Conforms.declaredOnly {query : Query} {body : Option ParsedValue}
    (hconforms : Conforms Rest.inheriting details row query body)
    (hborrows : ¬ CallBorrows details row query body) :
    Conforms Rest.declaredOnly details row query body where
  names entry hentry value hvalue := by
    obtain ⟨param, hparam, hadmits⟩ := hconforms.names entry hentry value hvalue
    exact ⟨param, hparam, admits_declaredOnly hadmits fun hlent =>
      hborrows (.value hentry hvalue hparam hlent)⟩
  required param hparam hrequired := by
    have hpresent := hconforms.required param hparam hrequired
    by_contra hlent
    rw [Bool.not_eq_false] at hlent
    refine hborrows (.required hparam hrequired ?_ hlent)
    change absent [] query param.name = true at hlent
    change absent objectPrototype query param.name = false at hpresent
    rw [absent] at hlent hpresent
    cases hfound : query.find? fun entry => entry.1 = param.name with
    | some entry =>
        rw [hfound] at hlent hpresent
        exact absurd (hlent.symm.trans hpresent) nofun
    | none =>
        rw [hfound] at hpresent
        simpa using hpresent
  body := by
    have hbody := hconforms.body
    cases hrow : bodyRow details row with
    | none =>
        rw [hrow] at hbody
        cases body with
        | none => exact hbody
        | some value => exact hbody
    | some row' =>
        rw [hrow] at hbody
        cases body with
        | none => exact hbody
        | some value =>
            exact admits_declaredOnly hbody fun hlent => hborrows (.body rfl hrow hlent)

end Calls

/-- From some number of levels on, a call that conforms is let through, and a call that is
let through conforms unless it borrows an inherited name. -/
theorem check_conforms (toLowerCase : JsString → JsString) (details : Details)
    (vendor : JsString) (row : ℕ) (op : Operation) :
    ∃ enough, ∀ levels ≥ enough, ∀ query body,
      (Conforms declaredOnly details row query body →
        check toLowerCase details vendor levels row op query body = .ok ()) ∧
      (check toLowerCase details vendor levels row op query body = .ok () →
        ¬ CallBorrows details row query body → Conforms declaredOnly details row query body) ∧
      (check toLowerCase details vendor levels row op query body = .ok () ∨
        ∃ error, check toLowerCase details vendor levels row op query body =
          .error (.invalid error)) := by
  obtain ⟨enough, henough⟩ :=
    Filter.eventually_atTop.mp (findings_decide toLowerCase details row)
  refine ⟨enough, fun levels hlevels query body => ?_⟩
  obtain ⟨issues, hissues, hempty⟩ := henough levels hlevels query body
  have hcheck : check toLowerCase details vendor levels row op query body = .ok () ↔
      issues = [] := by
    rw [check, hissues]
    cases issues with
    | nil => exact iff_of_true rfl rfl
    | cons issue rest => exact iff_of_false nofun (List.cons_ne_nil _ _)
  refine ⟨?_, ?_, ?_⟩
  · intro hconforms
    exact hcheck.mpr (hempty.mpr hconforms.inheriting)
  · intro hpassed hborrows
    exact (hempty.mp (hcheck.mp hpassed)).declaredOnly hborrows
  · rw [check, hissues]
    cases issues with
    | nil => exact .inl rfl
    | cons issue rest => exact .inr ⟨_, rfl⟩

/-! ## A bound that no empty value meets -/

theorem sizeOf_children {node child : SchemaNode} (hchild : child ∈ node.children) :
    sizeOf child < sizeOf node := by
  obtain ⟨t, e, n, a, p, r, i, m, x, shared, l, u⟩ := node
  simp only [SchemaNode.children, List.mem_append, List.mem_map] at hchild
  rw [SchemaNode.mk.sizeOf_spec]
  rcases hchild with ((hbranch | ⟨entry, hentry, rfl⟩) | hitems) | hother
  · cases a with
    | none => exact absurd hbranch List.not_mem_nil
    | some branches =>
        have hsize := List.sizeOf_lt_of_mem (show child ∈ branches from hbranch)
        rw [Option.some.sizeOf_spec]
        omega
  · cases p with
    | none => exact absurd hentry List.not_mem_nil
    | some properties =>
        have hsize := List.sizeOf_lt_of_mem (show entry ∈ properties from hentry)
        obtain ⟨key, child⟩ := entry
        rw [Prod.mk.sizeOf_spec] at hsize
        rw [Option.some.sizeOf_spec]
        dsimp only
        omega
  · cases i with
    | none => exact absurd hitems List.not_mem_nil
    | some items =>
        obtain rfl := List.mem_singleton.mp hitems
        rw [Option.some.sizeOf_spec]
        omega
  · cases m with
    | none => exact absurd hother List.not_mem_nil
    | some other =>
        obtain rfl := List.mem_singleton.mp hother
        rw [Option.some.sizeOf_spec]
        omega

/-- Nodes without references are below one another as parts are. -/
theorem acyclic_nil : WellFounded (Below []) := by
  have hbelow {child node : SchemaNode} (hchild : Below [] child node) :
      sizeOf child < sizeOf node := by
    cases hshared : node.shared with
    | none =>
        have hderef : deref [] node = node := by
          rw [deref, derefWithin, hshared]
        rw [Below, hderef] at hchild
        exact sizeOf_children hchild
    | some place =>
        have hderef : deref [] node = {} := by
          rw [deref, derefWithin, hshared]
          rfl
        rw [Below, hderef] at hchild
        exact absurd hchild List.not_mem_nil
  exact Subrelation.wf hbelow (measure sizeOf).wf

/-- One operation, whose body may hold a whole number of at least one. -/
def limited : Details where
  d := []
  o := [some ⟨[], some ⟨ofAscii "application/json",
    { t := [ofAscii "object"]
      p := some [(ofAscii "limit",
        { t := [ofAscii "integer"], l := some (Results.toNumber (ofAscii "1")) })] },
    false⟩⟩]
  acyclic := acyclic_nil

/-- Where `null` and the empty text are admitted everywhere, a call conforms that the check
refuses: against bounds they are no numbers. -/
theorem check_refuses_null : ∃ query body,
    Conforms ⟨[], true⟩ limited 0 query body ∧
      ∀ toLowerCase vendor op levels, ∃ error,
        check toLowerCase limited vendor (levels + 2) 0 op query body =
          .error (.invalid error) := by
  refine ⟨[], some (.object [(ofAscii "limit", .null)]), ⟨?_, ?_, ?_⟩, ?_⟩
  · exact nofun
  · exact nofun
  · have hnull {node : SchemaNode} : Admits ⟨[], true⟩ limited.d .body node .null :=
      admits_iff.mpr (.unset (.inl rfl) rfl)
    refine admits_iff.mpr (.given ⟨rfl, .inl ⟨rfl, rfl⟩, rfl⟩ ?_)
    refine ⟨?_, ?_, ?_, nofun⟩
    · intro member hmember child _
      obtain rfl := List.mem_singleton.mp hmember
      exact hnull
    · intro member hmember _ other _
      obtain rfl := List.mem_singleton.mp hmember
      exact hnull
    · intro member hmember hchild
      obtain rfl := List.mem_singleton.mp hmember
      exact absurd hchild nofun
  · intro toLowerCase vendor op levels
    exact ⟨_, rfl⟩

end Connecta.Rest
