import Connecta.Rest.SchemaAdmission

/-!
# The walk decides what an index admits

Findings are only added, so a call has none where each part of it adds none.
-/

namespace Connecta.Rest

open Connecta.Runtime
open Connecta.Runtime.JsString (ofAscii)
open Connecta.Arguments (Issue)
open Connecta.Results (ParsedValue decimal)

/-- A part of the walk answers, and there are no findings behind it where there were none and
it adds none. -/
def Decides (check : List Issue → Checked) (admitted : Prop) : Prop :=
  ∀ issues, ∃ result, check issues = .ok result ∧ (result = [] ↔ issues = [] ∧ admitted)

section Parts

variable {check : List Issue → Checked} {admitted : Prop}

theorem Decides.congr (hcheck : Decides check admitted) {admitted' : Prop}
    (hadmitted : admitted ↔ admitted') : Decides check admitted' := by
  rwa [← propext hadmitted]

theorem decides_ok : Decides .ok True := fun issues => ⟨issues, rfl, (and_iff_left trivial).symm⟩

/-- Some findings are added, or none. -/
theorem decides_append (found : List Issue) :
    Decides (fun issues => .ok (issues ++ found)) (found = []) :=
  fun issues => ⟨issues ++ found, rfl, List.append_eq_nil_iff⟩

theorem decides_issue (issue : Issue) :
    Decides (fun issues => .ok (issues ++ [issue])) False :=
  (decides_append [issue]).congr (iff_false_intro (List.cons_ne_nil _ _))

theorem Decides.then (hcheck : Decides check admitted) {next : List Issue → Checked}
    {admitted' : Prop} (hnext : Decides next admitted') :
    Decides (fun issues => check issues >>= next) (admitted ∧ admitted') := by
  intro issues
  obtain ⟨result, hresult, hempty⟩ := hcheck issues
  obtain ⟨whole, hwhole, hnone⟩ := hnext result
  refine ⟨whole, ?_, ?_⟩
  · change Except.bind (check issues) next = .ok whole
    rw [hresult]
    exact hwhole
  · rw [hnone, hempty, and_assoc]

theorem decides_fold {Part : Type} {step : List Issue → Part → Checked} {admits : Part → Prop}
    {parts : List Part} (hstep : ∀ part ∈ parts, Decides (fun issues => step issues part)
      (admits part)) :
    Decides (fun issues => parts.foldlM step issues) (∀ part ∈ parts, admits part) := by
  induction parts with
  | nil => exact decides_ok.congr (iff_of_true trivial fun _ hpart => absurd hpart List.not_mem_nil)
  | cons part rest ih =>
      rw [List.forall_mem_cons] at hstep
      simp only [List.foldlM_cons]
      exact ((hstep.1).then (ih hstep.2)).congr List.forall_mem_cons.symm

/-- The branches of a union add no finding where one of them has none; a union without
branches adds none either. -/
theorem checkBranches_decides {check : SchemaNode → Checked} {admits : SchemaNode → Prop}
    {branches : List SchemaNode}
    (hcheck : ∀ branch ∈ branches, ∃ attempt, check branch = .ok attempt ∧
      (attempt = [] ↔ admits branch)) {fewest : Option (List Issue)} (hfewest : fewest ≠ some []) :
    ∃ result, checkBranches check fewest branches = .ok result ∧
      (result = [] ↔ (∃ branch ∈ branches, admits branch) ∨ branches = [] ∧ fewest = none) := by
  induction branches generalizing fewest with
  | nil =>
      refine ⟨fewest.getD [], rfl, ?_⟩
      cases fewest with
      | none => simp
      | some issues =>
          have hissues : issues ≠ [] := fun hempty => hfewest (congrArg some hempty)
          simp [hissues]
  | cons branch rest ih =>
      rw [List.forall_mem_cons] at hcheck
      obtain ⟨⟨attempt, hattempt, hadmits⟩, hrest⟩ := hcheck
      rw [checkBranches, hattempt]
      change ∃ result, (if attempt = [] then _ else _) = _ ∧ _
      by_cases hempty : attempt = []
      · rw [if_pos hempty]
        refine ⟨[], rfl, iff_of_true rfl (.inl ⟨branch, List.mem_cons_self, ?_⟩)⟩
        exact hadmits.mp hempty
      · rw [if_neg hempty]
        have hnone : ¬ admits branch := fun hbranch => hempty (hadmits.mpr hbranch)
        have hgoes (kept : List Issue) (hkept : kept ≠ []) :
            ∃ result, checkBranches check (some kept) rest = .ok result ∧
              (result = [] ↔ (∃ choice ∈ branch :: rest, admits choice) ∨
                branch :: rest = [] ∧ fewest = none) := by
          obtain ⟨result, hresult, hnone'⟩ := ih hrest fun hsame => hkept (Option.some.inj hsame)
          refine ⟨result, hresult, hnone'.trans ?_⟩
          simp only [List.mem_cons, exists_eq_or_imp, hnone, false_or, reduceCtorEq, and_false,
            or_false, false_and]
        cases fewest with
        | none => exact hgoes attempt hempty
        | some issues =>
            have hlonger : issues ≠ [] := fun hsame => hfewest (congrArg some hsame)
            by_cases hshorter : attempt.length < issues.length
            · simpa only [if_pos hshorter] using hgoes attempt hempty
            · simpa only [if_neg hshorter] using hgoes issues hlonger

end Parts

/-! ## Bounds -/

section Bounds

variable {site : Site} {schema : SchemaNode} {value : ParsedValue} {at' : JsString}

theorem numericValue_unset (hunset : unset value = true) (integer : Bool) :
    numericValue site integer value = none := by
  cases value with
  | null => rfl
  | string text =>
      obtain rfl := of_decide_eq_true hunset
      cases site <;> cases integer <;> rfl
  | _ => exact absurd hunset nofun

/-- No finding is added exactly inside the bounds. -/
theorem bounds_within {found : List Issue}
    (hbounds : bounds site schema value at' = .within found) :
    (found = [] ↔ schema.InBounds site value) ∧
      (unset value = true → schema.l = none ∧ schema.u = none) := by
  rw [bounds] at hbounds
  split_ifs at hbounds with hnone hnull
  · obtain rfl := Bounded.within.inj hbounds
    rw [Bool.and_eq_true, Option.isNone_iff_eq_none, Option.isNone_iff_eq_none] at hnone
    exact ⟨iff_of_true rfl (.inl hnone), fun _ => hnone⟩
  · dsimp only at hbounds
    cases hnumeric : numericValue site (schema.has "integer") value with
    | none =>
        rw [hnumeric] at hbounds
        exact absurd hbounds nofun
    | some numeric =>
        have hset : unset value = true → schema.l = none ∧ schema.u = none := by
          intro hunset
          rw [numericValue_unset hunset] at hnumeric
          exact absurd hnumeric nofun
        refine ⟨?_, hset⟩
        rw [hnumeric] at hbounds
        dsimp only at hbounds
        split_ifs at hbounds with hwrong
        rw [Bool.or_eq_true, not_or, Bool.not_eq_true', Bool.not_eq_false, Bool.not_eq_true,
          Bool.and_eq_false_iff, Bool.not_eq_false'] at hwrong
        obtain rfl := Bounded.within.inj hbounds
        rw [List.append_eq_nil_iff]
        have hinteger : schema.has "integer" = true → numeric.isSafeInteger = true := by
          intro hinteger
          rcases hwrong.2 with hother | hsafe
          · exact absurd (hinteger.symm.trans hother) nofun
          · exact hsafe
        have hbounded : ¬ (schema.l = none ∧ schema.u = none) := by
          simpa using hnone
        rw [SchemaNode.InBounds, or_iff_right hbounded]
        constructor
        · rintro ⟨hleast, hmost⟩
          refine ⟨numeric, hnumeric, hwrong.1, hinteger, fun least hl => ?_, fun most hu => ?_⟩
          · rw [hl] at hleast
            simpa using hleast
          · rw [hu] at hmost
            simpa using hmost
        · rintro ⟨numeric', hnumeric', -, -, hleast, hmost⟩
          obtain rfl := Option.some.inj (hnumeric.symm.trans hnumeric')
          constructor
          · cases hl : schema.l with
            | none => rfl
            | some least => exact if_neg (ne_true_of_eq_false (hleast least hl))
          · cases hu : schema.u with
            | none => rfl
            | some most => exact if_neg (ne_true_of_eq_false (hmost most hu))

theorem bounds_passed (hbounds : bounds site schema value at' = .passed) :
    value = .null ∧ schema.n = true := by
  rw [bounds] at hbounds
  split_ifs at hbounds with hnone hnull
  · rw [Bool.and_eq_true] at hnull
    refine ⟨?_, hnull.2⟩
    cases value with
    | null => rfl
    | _ => exact absurd hnull.1 nofun
  · dsimp only at hbounds
    cases hnumeric : numericValue site (schema.has "integer") value with
    | none =>
        rw [hnumeric] at hbounds
        exact absurd hbounds nofun
    | some numeric =>
        rw [hnumeric] at hbounds
        dsimp only at hbounds
        split_ifs at hbounds

theorem bounds_refused (hbounds : bounds site schema value at' = .refused) :
    ¬ schema.InBounds site value ∧ ¬ (value = .null ∧ schema.n = true) ∧
      ¬ (schema.l = none ∧ schema.u = none) := by
  rw [bounds] at hbounds
  split_ifs at hbounds with hnone hnull
  have hbounded : ¬ (schema.l = none ∧ schema.u = none) := by
    simpa using hnone
  refine ⟨?_, ?_, hbounded⟩
  · rw [SchemaNode.InBounds, or_iff_right hbounded]
    rintro ⟨numeric, hnumeric, hfinite, hsafe, -⟩
    dsimp only at hbounds
    rw [hnumeric] at hbounds
    dsimp only at hbounds
    split_ifs at hbounds with hwrong
    simp [hfinite] at hwrong
    exact absurd (hsafe hwrong.1) (by simp [hwrong.2])
  · rintro ⟨rfl, hn⟩
    simp [isNull, hn] at hnull

end Bounds

/-! ## Shapes -/

/-- The reading of the code: the names that objects inherit pass for declared ones. -/
def inheriting : Reading := ⟨objectPrototype, false⟩

section Shapes

variable {toLowerCase : JsString → JsString} {schema : SchemaNode}
  {check : SchemaNode → ParsedValue → JsString → List Issue → Checked}
  {admits : SchemaNode → ParsedValue → Prop}

/-- A member is held against a node below, or against one that says nothing. -/
theorem childOf_children {inherited : List JsString} {key : JsString} {child : SchemaNode}
    (hchild : childOf inherited schema key = some child) :
    child ∈ schema.children ∨ child = {} := by
  rw [childOf] at hchild
  cases hfound : (schema.p.getD []).find? fun entry => entry.1 = key with
  | some entry =>
      rw [hfound] at hchild
      obtain rfl := Option.some.inj hchild
      have hentry := List.mem_map_of_mem (f := Prod.snd) (List.mem_of_find?_eq_some hfound)
      simp [SchemaNode.children, hentry]
  | none =>
      rw [hfound] at hchild
      dsimp only at hchild
      split_ifs at hchild with hinherited
      exact .inr (Option.some.inj hchild).symm

theorem checkMember_decides
    (hcheck : ∀ child, child ∈ schema.children ∨ child = {} → ∀ value at',
      Decides (check child value at') (admits child value)) (at' : JsString)
    (member : JsString × ParsedValue) :
    Decides (fun issues => checkMember toLowerCase check schema at' issues member)
      ((∀ child, childOf objectPrototype schema member.1 = some child → admits child member.2) ∧
        (childOf objectPrototype schema member.1 = none →
          (∀ other, schema.m = some other → admits other member.2) ∧
            (schema.m = none → schema.p = none))) := by
  unfold checkMember
  cases hchild : childOf objectPrototype schema member.1 with
  | some child =>
      exact (hcheck child (childOf_children hchild) _ _).congr (by simp)
  | none =>
      cases hother : schema.m with
      | some other =>
          have hmember : other ∈ schema.children := by
            simp [SchemaNode.children, hother]
          exact (hcheck other (.inl hmember) _ _).congr (by simp)
      | none =>
          cases hproperties : schema.p with
          | some properties => exact (decides_issue _).congr (by simp)
          | none => exact decides_ok.congr (by simp)

theorem checkMembers_decides
    (hcheck : ∀ child, child ∈ schema.children ∨ child = {} → ∀ value at',
      Decides (check child value at') (admits child value)) (at' : JsString)
    (members : List (JsString × ParsedValue)) :
    Decides (fun issues => do
      let issues ← members.foldlM (checkMember toLowerCase check schema at') issues
      return issues ++ (schema.r.filter (missing objectPrototype members)).map (missingIssue at'))
      (MembersFit inheriting admits schema members) := by
  have hmember (member : JsString × ParsedValue) :=
    @checkMember_decides toLowerCase schema check admits hcheck at' member
  have hmembers := @decides_fold _ _ _ members fun member _ => hmember member
  have hrequired := decides_append ((schema.r.filter (missing objectPrototype members)).map
    (missingIssue at'))
  refine (hmembers.then hrequired).congr ?_
  rw [List.map_eq_nil_iff, List.filter_eq_nil_iff]
  constructor
  · rintro ⟨hfit, hnone⟩
    exact {
      child := fun member hmember => (hfit member hmember).1
      other := fun member hmember hchild => ((hfit member hmember).2 hchild).1
      closed := fun member hmember hchild => ((hfit member hmember).2 hchild).2
      required := fun key hkey => Bool.eq_false_iff.mpr (hnone key hkey) }
  · intro hfit
    exact ⟨fun member hmember => ⟨hfit.child member hmember, fun hchild =>
      ⟨hfit.other member hmember hchild, hfit.closed member hmember hchild⟩⟩,
      fun key hkey => Bool.eq_false_iff.mp (hfit.required key hkey)⟩

theorem checkItems_decides
    (hcheck : ∀ child, child ∈ schema.children ∨ child = {} → ∀ value at',
      Decides (check child value at') (admits child value)) (at' : JsString)
    (elements : List ParsedValue) :
    Decides (fun issues => match schema.i with
      | some items => elements.zipIdx.foldlM (fun issues (item, index) =>
          check items item (pointer at' (decimal index)) issues) issues
      | none => .ok issues)
      (∀ item ∈ elements, ∀ items, schema.i = some items → admits items item) := by
  cases hitems : schema.i with
  | none => exact decides_ok.congr (iff_of_true trivial fun _ _ _ hnone => absurd hnone nofun)
  | some items =>
      have hmember : items ∈ schema.children := by
        simp [SchemaNode.children, hitems]
      have helements := @decides_fold _ _ _ elements.zipIdx fun element _ =>
        hcheck items (.inl hmember) element.1 (pointer at' (decimal element.2))
      refine helements.congr ?_
      constructor
      · intro hadmits item hitem items' hsame
        obtain rfl := Option.some.inj hsame
        obtain ⟨index, hindex⟩ := List.mem_iff_getElem?.mp hitem
        exact hadmits (item, index) (List.mk_mem_zipIdx_iff_getElem?.mpr hindex)
      · exact fun hadmits element helement =>
          hadmits element.1 (List.fst_mem_of_mem_zipIdx helement) items rfl

theorem checkShape_decides
    (hcheck : ∀ child, child ∈ schema.children ∨ child = {} → ∀ value at',
      Decides (check child value at') (admits child value)) {value : ParsedValue}
    (hset : unset value = false) (at' : JsString) :
    Decides (checkShape toLowerCase schema check value at')
      (Shaped inheriting admits schema value) := by
  unfold checkShape Shaped SchemaNode.objectLike SchemaNode.arrayLike
  simp only [hset, Bool.false_eq_true, if_false]
  cases hunion : schema.a with
  | some branches =>
      dsimp only
      intro issues
      have hbranches : ∀ branch ∈ branches, ∃ attempt, check branch value at' [] = .ok attempt ∧
          (attempt = [] ↔ admits branch value) := by
        intro branch hbranch
        have hmember : branch ∈ schema.children := by
          simp [SchemaNode.children, hunion, hbranch]
        obtain ⟨attempt, hattempt, hempty⟩ := hcheck branch (.inl hmember) value at' []
        exact ⟨attempt, hattempt, hempty.trans (and_iff_right rfl)⟩
      obtain ⟨fewest, hfewest, hempty⟩ := @checkBranches_decides _ _ _ hbranches none (by simp)
      refine ⟨issues ++ fewest, ?_, ?_⟩
      · rw [hfewest]
        rfl
      · rw [List.append_eq_nil_iff, hempty, and_iff_left rfl]
  | none =>
      cases hoptions : schema.options value with
      | some options =>
          dsimp only
          rw [← List.any_eq_true]
          by_cases htaken : (options.any fun option => option.takes value) = true
          · simp only [htaken, if_true]
            exact decides_ok
          · simp only [htaken]
            exact (decides_issue _).congr (iff_of_false id Bool.false_ne_true)
      | none =>
          dsimp only
          by_cases hobject : (schema.p.isSome || schema.has "object") = true
          · simp only [hobject, if_true]
            by_cases hrecord : ∃ members, value = .object members
            · obtain ⟨members, rfl⟩ := hrecord
              exact checkMembers_decides hcheck at' members
            · have hother : Decides (fun issues =>
                  if (schema.t.isEmpty || schema.has "object") = true then
                    .ok (issues ++ [⟨at', ofAscii "object", none⟩]) else .ok issues)
                  (schema.t.isEmpty = false ∧ schema.has "object" = false) := by
                by_cases htyped : (schema.t.isEmpty || schema.has "object") = true
                · simp only [htyped, if_true]
                  refine (decides_issue _).congr (iff_of_false id ?_)
                  rintro ⟨hempty, hhas⟩
                  simp [hempty, hhas] at htyped
                · simp only [htyped]
                  rw [Bool.or_eq_true, not_or, Bool.not_eq_true, Bool.not_eq_true] at htyped
                  exact decides_ok.congr (iff_of_true trivial htyped)
              cases value with
              | object members => exact absurd ⟨members, rfl⟩ hrecord
              | _ => exact hother
          · simp only [hobject]
            by_cases harray : (schema.i.isSome || schema.has "array") = true
            · simp only [harray, if_true]
              cases value with
              | array elements => exact checkItems_decides hcheck at' elements
              | _ => exact decides_issue _
            · simp only [harray]
              by_cases htyped : (!schema.t.isEmpty && (isRecord value || isArray value)) = true
              · simp only [htyped, if_true]
                refine (decides_issue _).congr (iff_of_false id ?_)
                rintro (hempty | ⟨hrecord, hlist⟩)
                · simp [hempty] at htyped
                · simp [hrecord, hlist] at htyped
              · simp only [htyped]
                refine decides_ok.congr (iff_of_true trivial ?_)
                cases hempty : schema.t.isEmpty with
                | true => exact .inl rfl
                | false =>
                    simp only [hempty, Bool.not_false, Bool.true_and, Bool.or_eq_true, not_or,
                      Bool.not_eq_true] at htyped
                    exact .inr htyped

end Shapes

/-! ## Nodes -/

section Nodes

variable {toLowerCase : JsString → JsString} {nodes : List SchemaNode} {site : Site}

/-- A value that is looked at fits where it is in its bounds and has the shape. -/
theorem fits_given_iff {admits : SchemaNode → ParsedValue → Prop} {schema : SchemaNode}
    {value : ParsedValue} (hwhole : schema.x = false) (hinhabited : schema.Inhabited)
    (hset : unset value = false) : Fits inheriting site admits schema value ↔
      schema.InBounds site value ∧ Shaped inheriting admits schema value := by
  constructor
  · intro hfits
    cases hfits with
    | truncated htruncated => exact absurd (htruncated.symm.trans hwhole) nofun
    | nullable => exact absurd hset nofun
    | unset _ hunset => exact absurd (hunset.symm.trans hset) nofun
    | given hgiven hshaped => exact ⟨hgiven.bounded, hshaped⟩
  · rintro ⟨hbounds, hshaped⟩
    exact .given ⟨hinhabited, hbounds, hset⟩ hshaped

theorem decides_below {check : List Issue → Checked} {admitted : Prop}
    (hcheck : Decides check admitted) :
    Decides (fun issues => if MAX_ISSUES ≤ issues.length then .ok issues else check issues)
      admitted := by
  intro issues
  by_cases hmany : MAX_ISSUES ≤ issues.length
  · refine ⟨issues, if_pos hmany, iff_of_false ?_ ?_⟩
    · rintro rfl
      exact absurd hmany (by decide)
    · rintro ⟨rfl, -⟩
      exact absurd hmany (by decide)
  · obtain ⟨result, hresult, hempty⟩ := hcheck issues
    exact ⟨result, (if_neg hmany).trans hresult, hempty⟩

/-- One level of the walk, over levels that decide the nodes below. -/
theorem checkNode_step {admits : SchemaNode → ParsedValue → Prop} {levels : ℕ} {node : SchemaNode}
    (hsite : site ≠ .path)
    (hcheck : ∀ child, child ∈ (deref nodes node).children ∨ child = {} → ∀ value at',
      Decides (checkNode toLowerCase nodes site levels child value at') (admits child value))
    (value : ParsedValue) (at' : JsString) :
    Decides (checkNode toLowerCase nodes site (levels + 1) node value at')
      (Fits inheriting site admits (deref nodes node) value) := by
  change Decides (fun issues =>
    checkNode toLowerCase nodes site (levels + 1) node value at' issues) _
  simp only [checkNode]
  refine decides_below ?_
  simp only [if_neg hsite]
  generalize deref nodes node = schema at hcheck ⊢
  cases hwhole : schema.x with
  | true => exact decides_ok.congr (iff_of_true trivial (.truncated hwhole))
  | false =>
      simp only [Bool.false_eq_true, if_false]
      by_cases hempty : schema.e.any List.isEmpty = true
      · simp only [hempty, if_true]
        have hnone : ¬ schema.Inhabited := fun hinhabited =>
          absurd (hempty.symm.trans hinhabited) nofun
        refine (decides_issue _).congr (iff_of_false id ?_)
        intro hfits
        cases hfits with
        | truncated htruncated => exact absurd (htruncated.symm.trans hwhole) nofun
        | nullable hinhabited _ => exact hnone hinhabited
        | unset hunset _ => exact hunset.elim nofun fun hunset => hnone hunset.1
        | given hgiven _ => exact hnone hgiven.inhabited
      have hinhabited : schema.Inhabited := Bool.eq_false_iff.mpr hempty
      simp only [hempty]
      cases hbounds : bounds site schema value at' with
      | passed =>
          obtain ⟨rfl, hnullable⟩ := bounds_passed hbounds
          exact decides_ok.congr (iff_of_true trivial (.nullable hinhabited hnullable))
      | refused =>
          obtain ⟨houtside, hnullable, hbounded⟩ := bounds_refused hbounds
          refine (decides_issue _).congr (iff_of_false id ?_)
          intro hfits
          cases hfits with
          | truncated htruncated => exact absurd (htruncated.symm.trans hwhole) nofun
          | nullable _ hn => exact hnullable ⟨rfl, hn⟩
          | unset hunset _ => exact hunset.elim nofun fun hunset => hbounded hunset.2
          | given hgiven _ => exact houtside hgiven.bounded
      | within found =>
          obtain ⟨hfound, hfree⟩ := bounds_within hbounds
          cases hset : unset value with
          | true =>
              obtain rfl := hfound.mpr (.inl (hfree hset))
              have hshape : Decides (fun issues => checkShape toLowerCase schema
                  (checkNode toLowerCase nodes site levels) value at' (issues ++ [])) True := by
                unfold checkShape
                simp only [hset, if_true, List.append_nil]
                exact decides_ok
              exact hshape.congr (iff_of_true trivial (.unset (.inr ⟨hinhabited, hfree hset⟩) hset))
          | false =>
              have hshape := (decides_append found).then
                (@checkShape_decides toLowerCase _ _ _ hcheck _ hset at')
              refine hshape.congr ?_
              rw [fits_given_iff hwhole hinhabited hset, hfound]

/-- A node that says nothing adds no finding. -/
theorem checkNode_empty (hsite : site ≠ .path) (levels : ℕ) (value : ParsedValue)
    (at' : JsString) :
    Decides (checkNode toLowerCase nodes site (levels + 1) {} value at') True := by
  have hoptions : SchemaNode.options {} value = none := by
    rw [SchemaNode.options]
    exact ite_self _
  have hshape (check : SchemaNode → ParsedValue → JsString → List Issue → Checked)
      (issues : List Issue) : checkShape toLowerCase {} check value at' issues = .ok issues := by
    unfold checkShape
    by_cases hunset : unset value = true
    · exact if_pos hunset
    · rw [if_neg hunset, hoptions]
      rfl
  change Decides (fun issues =>
    checkNode toLowerCase nodes site (levels + 1) {} value at' issues) _
  simp only [checkNode]
  refine decides_below ?_
  simp only [if_neg hsite, deref_empty]
  intro issues
  refine ⟨issues, ?_, (and_iff_left trivial).symm⟩
  exact (hshape (checkNode toLowerCase nodes site levels) (issues ++ [])).trans
    (congrArg Except.ok (List.append_nil issues))

/-- Enough levels of the walk decide what a node admits. -/
theorem checkNode_decides (hacyclic : WellFounded (Below nodes)) (hsite : site ≠ .path)
    (node : SchemaNode) : ∀ᶠ levels in Filter.atTop, ∀ value at',
      Decides (checkNode toLowerCase nodes site levels node value at')
        (Admits inheriting nodes site node value) := by
  induction node using hacyclic.induction with
  | _ node ih =>
      have hbelow : ∀ᶠ levels in Filter.atTop, ∀ child ∈ (deref nodes node).children, ∀ value at',
          Decides (checkNode toLowerCase nodes site levels child value at')
            (Admits inheriting nodes site child value) :=
        (Filter.eventually_all_finite (List.finite_toSet _)).mpr ih
      obtain ⟨enough, henough⟩ := Filter.eventually_atTop.mp hbelow
      refine Filter.eventually_atTop.mpr ⟨enough + 2, fun levels hlevels value at' => ?_⟩
      obtain ⟨levels, rfl⟩ : ∃ below, levels = below + 2 := ⟨levels - 2, by omega⟩
      refine (checkNode_step hsite ?_ value at').congr admits_iff.symm
      rintro child (hchild | rfl) value at'
      · exact henough (levels + 1) (by omega) child hchild value at'
      · exact (checkNode_empty hsite levels value at').congr (iff_of_true trivial admits_empty)

end Nodes

end Connecta.Rest
