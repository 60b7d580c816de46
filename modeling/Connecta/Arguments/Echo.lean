import Connecta.Arguments.Withholding

/-!
# What an echo shows

The echo of a call leaves out every value a private subschema applies to, and every
array that would lose an element by it, and changes nothing else.  What it leaves out
because it is private is visited for the redaction of outputs, alone or as a part of
a value that is.
-/

namespace Connecta.Arguments

open Connecta.Runtime

/-! ## What stays of a value -/

/-- The hidden positions beneath a step. -/
def beneath (hidden : List Step → Prop) (step : Step) : List Step → Prop :=
  fun position => hidden (step :: position)

def scalar : Json → Bool
  | .array _ | .object _ => false
  | _ => true

/-- What stays of a value where the hidden positions are removed, and with an element
the array it is in. -/
inductive Stays : (List Step → Prop) → Json → Option Json → Prop where
  | hidden {hidden : List Step → Prop} {value : Json} (hhidden : hidden []) :
      Stays hidden value none
  | lost {hidden : List Step → Prop} {entries : List Json} {index : ℕ} {entry : Json}
      (hshown : ¬ hidden []) (hentry : entries[index]? = some entry)
      (hlost : Stays (beneath hidden (.index index)) entry none) :
      Stays hidden (.array entries) none
  | array {hidden : List Step → Prop} {entries kept : List Json} (hshown : ¬ hidden [])
      (hlength : kept.length = entries.length)
      (hkept : ∀ (index : ℕ) entry result, entries[index]? = some entry →
        kept[index]? = some result →
        Stays (beneath hidden (.index index)) entry (some result)) :
      Stays hidden (.array entries) (some (.array kept))
  | object {hidden : List Step → Prop} {members : List (JsString × Json)}
      {results : List (Option Json)} (hshown : ¬ hidden [])
      (hlength : results.length = members.length)
      (hkept : ∀ (index : ℕ) (member : JsString × Json) result, members[index]? = some member →
        results[index]? = some result → Stays (beneath hidden (.key member.1)) member.2 result) :
      Stays hidden (.object members) (some (.object (keptMembers members results)))
  | scalar {hidden : List Step → Prop} {value : Json} (hshown : ¬ hidden [])
      (hscalar : scalar value = true) : Stays hidden value (some value)

/-- What is hidden is what is at or beneath the positions of a set. -/
def Beneath (hidden start : List Step → Prop) : Prop :=
  ∀ position, hidden position ↔ ∃ above, above <+: position ∧ start above

theorem Beneath.nil {hidden start : List Step → Prop} (hbeneath : Beneath hidden start) :
    hidden [] ↔ start [] := by
  rw [hbeneath]
  constructor
  · rintro ⟨above, habove, hstart⟩
    rwa [List.prefix_nil.mp habove] at hstart
  · exact fun hstart => ⟨[], List.prefix_rfl, hstart⟩

theorem Beneath.step {hidden start : List Step → Prop} (hbeneath : Beneath hidden start)
    (hshown : ¬ hidden []) (step : Step) : Beneath (beneath hidden step) (beneath start step) := by
  intro position
  rw [beneath, hbeneath]
  constructor
  · rintro ⟨above, habove, hstart⟩
    cases above with
    | nil => exact absurd (hbeneath.nil.mpr hstart) hshown
    | cons other above =>
        obtain ⟨rfl, hrest⟩ := List.cons_prefix_cons.mp habove
        exact ⟨above, hrest, hstart⟩
  · rintro ⟨above, habove, hstart⟩
    exact ⟨step :: above, List.cons_prefix_cons.mpr ⟨rfl, habove⟩, hstart⟩

/-- Only the first hidden position on the way down counts. -/
theorem Stays.first {hidden start : List Step → Prop} {value : Json} {result : Option Json}
    (hstays : Stays hidden value result) (hbeneath : Beneath hidden start) :
    Stays start value result := by
  induction hstays generalizing start with
  | hidden hhidden => exact .hidden (hbeneath.nil.mp hhidden)
  | lost hshown hentry _ ih =>
      exact .lost (mt hbeneath.nil.mpr hshown) hentry (ih (hbeneath.step hshown _))
  | array hshown hlength _ ih =>
      exact .array (mt hbeneath.nil.mpr hshown) hlength fun index entry result hentry hresult =>
        ih index entry result hentry hresult (hbeneath.step hshown _)
  | object hshown hlength _ ih =>
      exact .object (mt hbeneath.nil.mpr hshown) hlength fun index member result hmember hresult =>
        ih index member result hmember hresult (hbeneath.step hshown _)
  | scalar hshown hscalar => exact .scalar (mt hbeneath.nil.mpr hshown) hscalar

theorem keptMembers_all (members : List (JsString × Json)) :
    keptMembers members (members.map fun member => some member.2) = members := by
  induction members with
  | nil => rfl
  | cons first others ih =>
      rw [keptMembers] at ih ⊢
      rw [List.map_cons, List.zip_cons_cons, List.filterMap_cons, ih]
      rfl

/-- Where nothing is hidden, everything stays. -/
theorem stays_public (value : Json) (hidden : List Step → Prop)
    (hnone : ∀ position, ¬ hidden position) : Stays hidden value (some value) := by
  match value with
  | .null => exact .scalar (hnone []) rfl
  | .bool _ => exact .scalar (hnone []) rfl
  | .number _ => exact .scalar (hnone []) rfl
  | .string _ => exact .scalar (hnone []) rfl
  | .array entries =>
      refine .array (hnone []) rfl fun index entry result hentry hresult => ?_
      obtain rfl := Option.some.inj (hentry.symm.trans hresult)
      have hmem := List.mem_of_getElem? hentry
      exact stays_public entry _ fun position => hnone (.index index :: position)
  | .object members =>
      have hobject := @Stays.object hidden members (members.map fun member => some member.2)
        (hnone []) (List.length_map _) fun index member result hmember hresult => by
          have hmem := List.mem_of_getElem? hmember
          rw [List.getElem?_map, hmember] at hresult
          obtain rfl := Option.some.inj hresult
          exact stays_public member.2 _ fun position => hnone (.key member.1 :: position)
      rwa [keptMembers_all] at hobject
termination_by sizeOf value
decreasing_by
  · have := List.sizeOf_lt_of_mem hmem
    simp only [Json.array.sizeOf_spec]
    omega
  · have := List.sizeOf_lt_of_mem hmem
    rcases member with ⟨name, entry⟩
    simp only [Json.object.sizeOf_spec, Prod.mk.sizeOf_spec] at this ⊢
    omega

/-! ## Applying a plan -/

/-- What a run over the parts of a value has answered and marked. -/
theorem applyEach_eq_some {Source Result : Type} {part : Source → Option Result × List Json}
    {sources : List Source} {results : List Result} {marks : List Json}
    (heach : applyEach part sources = (some results, marks)) :
    List.Forall₂ (fun source result =>
      ∃ marked, part source = (some result, marked) ∧ marked ⊆ marks) sources results := by
  induction sources generalizing results marks with
  | nil =>
      obtain rfl := Option.some.inj (Prod.mk.inj heach).1
      exact .nil
  | cons first rest ih =>
      rw [applyEach] at heach
      rcases hfirst : part first with ⟨_ | result, marked⟩
      · rw [hfirst] at heach
        exact absurd (Prod.mk.inj heach).1 nofun
      · rw [hfirst] at heach
        rcases hrest : applyEach part rest with ⟨_ | others, more⟩
        · rw [hrest] at heach
          exact absurd (Prod.mk.inj heach).1 nofun
        · rw [hrest] at heach
          obtain ⟨hresults, rfl⟩ := Prod.mk.inj heach
          obtain rfl := Option.some.inj hresults
          refine .cons ⟨marked, hfirst, List.subset_append_left ..⟩ ?_
          refine (ih hrest).imp fun source result ⟨marked', hsource, hsubset⟩ => ?_
          exact ⟨marked', hsource, List.Subset.trans hsubset (List.subset_append_right ..)⟩

/-- The elements of an array, where none of them was left out. -/
theorem mapM_id_cases (results : List (Option Json)) :
    (∃ kept, results.mapM id = some kept ∧ results = kept.map some) ∨
      (results.mapM id = none ∧ none ∈ results) := by
  induction results with
  | nil => exact .inl ⟨[], rfl, rfl⟩
  | cons first others ih =>
      rw [List.mapM_cons]
      cases first with
      | none => exact .inr ⟨rfl, List.mem_cons_self⟩
      | some value =>
          rcases ih with ⟨kept, hkept, rfl⟩ | ⟨hnone, hmem⟩
          · refine .inl ⟨value :: kept, ?_, rfl⟩
            rw [hkept]
            rfl
          · refine .inr ⟨?_, List.mem_cons_of_mem _ hmem⟩
            rw [hnone]
            rfl

/-- The branches of `apply` that answer. -/
inductive Applied : ℕ → Json → Plan → Option Json → List Json → Prop where
  | shown {levels : ℕ} {value : Json} {plan : Plan} (hpublic : sensitive plan = false) :
      Applied levels value plan (some value) []
  | omitted {levels : ℕ} {value : Json} {plan : Plan} (homitted : plan.omitted = true) :
      Applied levels value plan none [value]
  | array {levels : ℕ} {entries : List Json} {plan : Plan} {results : List (Option Json)}
      {marks : List Json} (homitted : plan.omitted = false)
      (heach : applyEach (fun (entry, index) => apply levels entry (item plan index))
        entries.zipIdx = (some results, marks)) :
      Applied (levels + 1) (.array entries) plan ((results.mapM id).map .array) marks
  | object {levels : ℕ} {members : List (JsString × Json)} {plan : Plan}
      {results : List (Option Json)} {marks : List Json} (homitted : plan.omitted = false)
      (heach : applyEach (fun (name, entry) => apply levels entry (field plan.properties name))
        members = (some results, marks)) :
      Applied (levels + 1) (.object members) plan
        (some (.object (keptMembers members results))) marks
  | scalar {levels : ℕ} {value : Json} {plan : Plan} (homitted : plan.omitted = false)
      (hscalar : scalar value = true) : Applied levels value plan (some value) []

theorem apply_cases {levels : ℕ} {value : Json} {plan : Plan} {result : Option Json}
    {marks : List Json} (hrun : apply levels value plan = (some result, marks)) :
    Applied levels value plan result marks := by
  rw [apply.eq_def] at hrun
  dsimp only at hrun
  by_cases hpublic : (!sensitive plan) = true
  · rw [if_pos hpublic] at hrun
    obtain ⟨hresult, rfl⟩ := Prod.mk.inj hrun
    obtain rfl := Option.some.inj hresult
    exact .shown (by simpa using hpublic)
  rw [if_neg hpublic] at hrun
  cases levels with
  | zero => exact absurd (Prod.mk.inj hrun).1 nofun
  | succ levels =>
      dsimp only at hrun
      by_cases homitted : plan.omitted = true
      · rw [if_pos homitted] at hrun
        obtain ⟨hresult, rfl⟩ := Prod.mk.inj hrun
        obtain rfl := Option.some.inj hresult
        exact .omitted homitted
      rw [if_neg homitted] at hrun
      rw [Bool.not_eq_true] at homitted
      cases value with
      | array entries =>
          dsimp only at hrun
          rcases heach : applyEach (fun part => apply levels part.1 (item plan part.2))
            entries.zipIdx with ⟨_ | results, marked⟩
          · rw [heach] at hrun
            exact absurd (Prod.mk.inj hrun).1 nofun
          · rw [heach] at hrun
            obtain ⟨hresult, rfl⟩ := Prod.mk.inj hrun
            obtain rfl := Option.some.inj hresult
            exact .array homitted heach
      | object members =>
          dsimp only at hrun
          rcases heach : applyEach
            (fun member => apply levels member.2 (field plan.properties member.1)) members
            with ⟨_ | results, marked⟩
          · rw [heach] at hrun
            exact absurd (Prod.mk.inj hrun).1 nofun
          · rw [heach] at hrun
            obtain ⟨hresult, rfl⟩ := Prod.mk.inj hrun
            obtain rfl := Option.some.inj hresult
            exact .object homitted heach
      | _ =>
          obtain ⟨hresult, rfl⟩ := Prod.mk.inj hrun
          obtain rfl := Option.some.inj hresult
          exact .scalar homitted rfl

theorem forall₂_getElem {Source Result : Type} {relation : Source → Result → Prop}
    {sources : List Source} {results : List Result}
    (hall : List.Forall₂ relation sources results) {index : ℕ} {source : Source}
    (hsource : sources[index]? = some source) :
    ∃ result, results[index]? = some result ∧ relation source result := by
  obtain ⟨hindex, rfl⟩ := List.getElem?_eq_some_iff.mp hsource
  have hindex' : index < results.length := hall.length_eq ▸ hindex
  exact ⟨results[index], List.getElem?_eq_getElem hindex', hall.get hindex hindex'⟩

/-- The step to a member or to an element that is not omitted goes to its own plan. -/
theorem beneath_key {plan : Plan} (homitted : plan.omitted = false) (name : JsString) :
    beneath (fun position => omits plan position = true) (.key name) =
      fun position => omits (field plan.properties name) position = true := by
  funext position
  rw [beneath, omits, homitted, Bool.false_or]

theorem beneath_index {plan : Plan} (homitted : plan.omitted = false) (index : ℕ) :
    beneath (fun position => omits plan position = true) (.index index) =
      fun position => omits (item plan index) position = true := by
  funext position
  rw [beneath, omits, homitted, Bool.false_or]

/-- What a plan leaves of a value. -/
theorem apply_stays {levels : ℕ} {value : Json} {plan : Plan} {result : Option Json}
    {marks : List Json} (hrun : apply levels value plan = (some result, marks)) :
    Stays (fun position => omits plan position = true) value result := by
  induction levels using Nat.strong_induction_on generalizing value plan result marks with
  | _ levels ih =>
  cases apply_cases hrun with
  | shown hpublic =>
      rw [sensitive_eq_false hpublic]
      exact stays_public value _ fun position homits =>
        Bool.false_ne_true ((omits_public position).symm.trans homits)
  | omitted homitted => exact .hidden homitted
  | scalar homitted hscalar =>
      exact .scalar (ne_of_eq_of_ne homitted Bool.false_ne_true) hscalar
  | @object levels members _ results _ homitted heach =>
      have hall := applyEach_eq_some heach
      refine .object (ne_of_eq_of_ne homitted Bool.false_ne_true) hall.length_eq.symm ?_
      intro index member result hmember hresult
      obtain ⟨result', hresult', marked, hpart, -⟩ := forall₂_getElem hall hmember
      obtain rfl := Option.some.inj (hresult.symm.trans hresult')
      rw [beneath_key homitted]
      exact ih levels (Nat.lt_succ_self _) hpart
  | @array levels entries _ results _ homitted heach =>
      have hall := applyEach_eq_some heach
      have hpart : ∀ index entry result, entries[index]? = some entry →
          results[index]? = some result →
            Stays (beneath (fun position => omits plan position = true) (.index index)) entry
              result := by
        intro index entry result hentry hresult
        have hsource : entries.zipIdx[index]? = some (entry, index) := by
          rw [List.getElem?_zipIdx, hentry]
          simp
        obtain ⟨result', hresult', marked, hpart, -⟩ := forall₂_getElem hall hsource
        obtain rfl := Option.some.inj (hresult.symm.trans hresult')
        rw [beneath_index homitted]
        exact ih levels (Nat.lt_succ_self _) hpart
      have hlength : results.length = entries.length := by
        rw [← hall.length_eq, List.length_zipIdx]
      have hshown := ne_of_eq_of_ne homitted Bool.false_ne_true
      rcases mapM_id_cases results with ⟨kept, hkept, rfl⟩ | ⟨hnone, hmem⟩
      · rw [hkept]
        rw [List.length_map] at hlength
        refine .array hshown hlength fun index entry result hentry hresult => ?_
        exact hpart index entry (some result) hentry (by rw [List.getElem?_map, hresult]; rfl)
      · rw [hnone]
        obtain ⟨index, hindex, hget⟩ := List.mem_iff_getElem.mp hmem
        have hentry := List.getElem?_eq_getElem (hlength ▸ hindex)
        exact .lost hshown hentry
          (hpart index _ none hentry (by rw [List.getElem?_eq_getElem hindex, hget]))

/-! ## What is marked -/

/-- The value at a position of another. -/
def valueAt : List Step → Json → Option Json
  | [], value => some value
  | .key name :: rest, .object members => do
      let member ← members.find? fun member => member.1 = name
      valueAt rest member.2
  | .index index :: rest, .array entries => do
      let entry ← entries[index]?
      valueAt rest entry
  | _ :: _, _ => none

/-- A private value is marked, or one that it is a part of. -/
theorem apply_marks {levels : ℕ} {value : Json} {plan : Plan} {result : Option Json}
    {marks : List Json} (hrun : apply levels value plan = (some result, marks))
    {position : List Step} {found : Json} (hvalue : valueAt position value = some found)
    (homits : omits plan position = true) :
    ∃ above whole, above <+: position ∧ valueAt above value = some whole ∧ whole ∈ marks := by
  induction position generalizing levels value plan result marks with
  | nil =>
      have homitted : plan.omitted = true := homits
      refine ⟨[], value, List.prefix_rfl, rfl, ?_⟩
      cases apply_cases hrun with
      | shown hpublic =>
          rw [sensitive_of_omits homits] at hpublic
          cases hpublic
      | omitted => exact List.mem_singleton_self value
      | array hshown | object hshown | scalar hshown =>
          rw [homitted] at hshown
          cases hshown
  | cons step rest ih =>
      have hinner : ∀ inner, (∃ above whole, above <+: rest ∧ valueAt above inner = some whole ∧
          whole ∈ marks) → (∀ position, valueAt (step :: position) value = valueAt position inner) →
            ∃ above whole, above <+: step :: rest ∧ valueAt above value = some whole ∧
              whole ∈ marks := by
        rintro inner ⟨above, whole, habove, hwhole, hmarked⟩ hstep
        exact ⟨step :: above, whole, List.cons_prefix_cons.mpr ⟨rfl, habove⟩,
          (hstep above).trans hwhole, hmarked⟩
      cases apply_cases hrun with
      | shown hpublic =>
          rw [sensitive_of_omits homits] at hpublic
          cases hpublic
      | omitted => exact ⟨[], value, List.nil_prefix, rfl, List.mem_singleton_self value⟩
      | scalar hshown hscalar => cases value <;> cases hscalar <;> cases step <;> cases hvalue
      | @object levels members _ results _ hshown heach =>
          cases step with
          | index index => cases hvalue
          | key name =>
              obtain ⟨member, hfound, hvalue⟩ := Option.bind_eq_some_iff.mp hvalue
              have hkey := List.find?_some hfound
              have hname : member.1 = name := of_decide_eq_true hkey
              obtain ⟨result, -, marked, hpart, hmarked⟩ :=
                forall₂_left (applyEach_eq_some heach) (List.mem_of_find?_eq_some hfound)
              rw [omits, hshown, Bool.false_or, ← hname] at homits
              obtain ⟨above, whole, habove, hwhole, hmem⟩ := ih hpart hvalue homits
              refine hinner member.2 ⟨above, whole, habove, hwhole, hmarked hmem⟩ fun position => ?_
              rw [valueAt, hfound]
              rfl
      | @array levels entries _ results _ hshown heach =>
          cases step with
          | key name => cases hvalue
          | index index =>
              obtain ⟨entry, hentry, hvalue⟩ := Option.bind_eq_some_iff.mp hvalue
              have hsource : entries.zipIdx[index]? = some (entry, index) := by
                rw [List.getElem?_zipIdx, hentry]
                simp
              obtain ⟨result, -, marked, hpart, hmarked⟩ :=
                forall₂_getElem (applyEach_eq_some heach) hsource
              rw [omits, hshown, Bool.false_or] at homits
              obtain ⟨above, whole, habove, hwhole, hmem⟩ := ih hpart hvalue homits
              refine hinner entry ⟨above, whole, habove, hwhole, hmarked hmem⟩ fun position => ?_
              rw [valueAt, hentry]
              rfl

/-- What is left out as a whole holds something that was marked. -/
theorem marks_ne_nil {levels : ℕ} {value : Json} {plan : Plan} {marks : List Json}
    (hrun : apply levels value plan = (some none, marks)) : marks ≠ [] := by
  induction levels using Nat.strong_induction_on generalizing value plan marks with
  | _ levels ih =>
  generalize hresult : (none : Option Json) = result at hrun
  cases apply_cases hrun with
  | shown | object | scalar => cases hresult
  | omitted => exact List.cons_ne_nil _ _
  | @array levels entries _ results _ _ heach =>
      rcases mapM_id_cases results with ⟨kept, hkept, -⟩ | ⟨-, hmem⟩
      · rw [hkept] at hresult
        cases hresult
      · obtain ⟨⟨entry, index⟩, -, marked, hpart, hmarked⟩ :=
          forall₂_right (applyEach_eq_some heach) hmem
        rintro rfl
        exact ih levels (Nat.lt_succ_self _) hpart (List.subset_nil.mp hmarked)

end Connecta.Arguments
