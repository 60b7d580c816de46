import Connecta.Catalog.CompactSchemas

/-!
# What only spends

Visits, the checks of texts and the texts of values change what is left of a walk's work, and
neither what it remembers nor whether it left anything out.
-/

namespace Connecta.Catalog

open Connecta.Foundation
open Connecta.Foundation.Faulty
open Connecta.Runtime
open Connecta.Runtime.JsString (ofAscii utf8)
open Connecta.Results (decimal)
open SchemaWalk

section

variable {Answer Next : Type}

/-- A program, answering or failing, leaves alone what was left out and what is remembered. -/
def Spends (program : SchemaWalk Answer) : Prop :=
  ∀ state, (program.result state).2.truncated = state.truncated ∧
    (program.result state).2.refs = state.refs

theorem spends_pure (answer : Answer) : Spends (pure answer : SchemaWalk Answer) :=
  fun _ => ⟨rfl, rfl⟩

theorem spends_throw (fault : SchemaFault) : Spends (throw fault : SchemaWalk Answer) :=
  fun _ => ⟨rfl, rfl⟩

theorem spends_ite {condition : Prop} [Decidable condition] {program other : SchemaWalk Answer}
    (hprogram : Spends program) (hother : Spends other) :
    Spends (if condition then program else other) := by
  split_ifs
  · exact hprogram
  · exact hother

theorem spends_get : Spends (get : SchemaWalk SchemaWork) := fun _ => ⟨rfl, rfl⟩

theorem Spends.bind {program : SchemaWalk Answer} (hprogram : Spends program)
    {next : Answer → SchemaWalk Next} (hnext : ∀ answer, Spends (next answer)) :
    Spends (program >>= next) := by
  intro state
  obtain ⟨htruncated, hrefs⟩ := hprogram state
  rw [result_bind]
  rcases hresult : program.result state with ⟨fault | answer, middle⟩
  · rw [hresult] at htruncated hrefs
    exact ⟨htruncated, hrefs⟩
  · rw [hresult] at htruncated hrefs
    obtain ⟨htruncated', hrefs'⟩ := hnext answer middle
    exact ⟨htruncated'.trans htruncated, hrefs'.trans hrefs⟩

theorem Spends.tryCatch {program : SchemaWalk Answer} (hprogram : Spends program)
    {handler : SchemaFault → SchemaWalk Answer} (hhandler : ∀ fault, Spends (handler fault)) :
    Spends (tryCatch program handler) := by
  intro state
  obtain ⟨htruncated, hrefs⟩ := hprogram state
  rw [result_tryCatch]
  rcases hresult : program.result state with ⟨fault | answer, middle⟩
  · rw [hresult] at htruncated hrefs
    obtain ⟨htruncated', hrefs'⟩ := hhandler fault middle
    exact ⟨htruncated'.trans htruncated, hrefs'.trans hrefs⟩
  · rw [hresult] at htruncated hrefs
    exact ⟨htruncated, hrefs⟩

theorem spends_visit : Spends visit := by
  intro state
  obtain ⟨remaining, byteLimit, truncated, refs, ungrouped⟩ := state
  cases remaining with
  | zero => exact ⟨rfl, rfl⟩
  | succ remaining => exact ⟨rfl, rfl⟩

theorem spends_text (value : JsString) : Spends (text value) :=
  spends_get.bind fun _ => spends_ite (spends_pure value) (spends_throw _)

theorem spends_ungroup (value : JsString) : Spends (ungroup value) := fun _ => ⟨rfl, rfl⟩

theorem spends_ungroupIf (condition : Bool) (value : JsString) :
    Spends (ungroupIf condition value) :=
  spends_ite (spends_ungroup value) (spends_pure ())

theorem spends_isUngrouped (value : JsString) : Spends (isUngrouped value) :=
  spends_get.bind fun _ => spends_pure _

theorem spends_addSerialized (bytes : ℕ) (value : JsString) :
    Spends (addSerialized bytes value) :=
  spends_get.bind fun _ => spends_ite (spends_throw _) (spends_pure _)

theorem spends_chargeKey (levels : ℕ) (inArray : Bool) (key : JsString) (bytes : ℕ) :
    Spends (chargeKey levels inArray key bytes) :=
  spends_ite (spends_pure bytes) (spends_addSerialized bytes _)

/-- What comes before the elements or members of a value. -/
theorem spends_charge (levels : ℕ) (inArray : Bool) (key : JsString) (bytes : ℕ)
    {next : ℕ → SchemaWalk ℕ} (hnext : ∀ bytes, Spends (next bytes)) :
    Spends (do
      visit
      let _ ← text key
      let bytes ← chargeKey levels inArray key bytes
      next bytes) :=
  spends_visit.bind fun _ => (spends_text key).bind fun _ =>
    (spends_chargeKey levels inArray key bytes).bind hnext

theorem spends_descend (levels : ℕ) {next : SchemaWalk ℕ} (hnext : Spends next) :
    Spends (do
      if 32 < levels then throw .workExceeded
      next) := by
  split_ifs
  · exact (spends_throw _).bind fun _ => hnext
  · exact hnext

mutual

theorem spends_chargeValue (levels : ℕ) (inArray : Bool) (key : JsString) (bytes : ℕ) :
    (value : Json) → Spends (chargeValue levels inArray key bytes value)
  | .array elements => by
      rw [chargeValue]
      exact spends_charge levels inArray key bytes fun bytes =>
        spends_descend levels (spends_chargeElements (levels + 1) 0 bytes elements)
  | .object members => by
      rw [chargeValue]
      exact spends_charge levels inArray key bytes fun bytes =>
        spends_descend levels (spends_chargeMembers (levels + 1) bytes members)
  | .string value => by
      rw [chargeValue]
      exact spends_visit.bind fun _ => (spends_text key).bind fun _ =>
        (spends_text value).bind fun _ => (spends_chargeKey levels inArray key bytes).bind
          fun bytes => spends_addSerialized bytes _
  | .null => by
      rw [chargeValue]
      · exact spends_charge levels inArray key bytes fun bytes => spends_addSerialized bytes _
      · simp
      · simp
      · simp
  | .bool value => by
      rw [chargeValue]
      · exact spends_charge levels inArray key bytes fun bytes => spends_addSerialized bytes _
      · simp
      · simp
      · simp
  | .number lexeme => by
      rw [chargeValue]
      · exact spends_charge levels inArray key bytes fun bytes => spends_addSerialized bytes _
      · simp
      · simp
      · simp

theorem spends_chargeElements (levels index bytes : ℕ) :
    (elements : List Json) → Spends (chargeElements levels index bytes elements)
  | [] => by
      rw [chargeElements]
      exact spends_pure bytes
  | element :: rest => by
      rw [chargeElements]
      exact (spends_chargeValue levels true (decimal index) bytes element).bind fun bytes =>
        spends_chargeElements levels (index + 1) bytes rest

theorem spends_chargeMembers (levels bytes : ℕ) :
    (members : List (JsString × Json)) → Spends (chargeMembers levels bytes members)
  | [] => by
      rw [chargeMembers]
      exact spends_pure bytes
  | (key, value) :: rest => by
      rw [chargeMembers]
      exact (spends_chargeValue levels false key bytes value).bind fun bytes =>
        spends_chargeMembers levels bytes rest

end

theorem spends_json (value : Json) : Spends (json value) :=
  (spends_chargeValue 0 false [] 0 value).bind fun _ => spends_text _

theorem spends_json? (value : Json) : Spends (json? value) := by
  apply Spends.tryCatch
  · exact (spends_json value).bind fun _ => spends_pure _
  · intro fault
    cases fault with
    | workExceeded => exact spends_throw _
    | sizeExceeded => exact spends_pure none

theorem spends_add (parts : Parts) (part : JsString) : Spends (parts.add part) :=
  spends_get.bind fun _ => spends_ite (spends_throw _) (spends_pure _)

theorem spends_checkDescription (options : RenderOptions) (description : Option JsString) :
    Spends (checkDescription options description) := by
  cases description with
  | none => exact spends_pure ()
  | some description =>
      exact spends_ite ((spends_text description).bind fun _ => spends_pure ()) (spends_pure ())

theorem spends_namesFrom (members : List (JsString × Json)) :
    Spends (namesFrom members) := by
  induction members with
  | nil => exact spends_pure []
  | cons member rest ih =>
      exact spends_visit.bind fun _ => (spends_text member.1).bind fun _ =>
        ih.bind fun _ => spends_pure _

theorem spends_propertyNames (props : Json) :
    Spends (propertyNames props) :=
  spends_namesFrom (enumerable props)

theorem spends_requiredFrom (names : List Json) :
    Spends (requiredFrom names) := by
  induction names with
  | nil => exact spends_pure []
  | cons name rest ih =>
      cases name with
      | string key =>
          exact spends_visit.bind fun _ => (spends_text key).bind fun _ =>
            ih.bind fun _ => spends_pure _
      | null => exact spends_visit.bind fun _ => ih
      | bool value => exact spends_visit.bind fun _ => ih
      | number lexeme => exact spends_visit.bind fun _ => ih
      | array elements => exact spends_visit.bind fun _ => ih
      | object members => exact spends_visit.bind fun _ => ih

theorem spends_schemaRequired (schema : Json) :
    Spends (schemaRequired schema) := by
  rw [schemaRequired]
  split
  · exact spends_requiredFrom _
  · exact spends_pure []

theorem spends_renderTypeNames (parts : Parts) (types : List Json) :
    Spends (renderTypeNames parts types) := by
  induction types generalizing parts with
  | nil => exact spends_pure parts
  | cons item rest ih =>
      exact spends_visit.bind fun _ => (spends_text _).bind fun name =>
        (spends_add parts name).bind ih

end

/-! ## Charges -/

/-- The visits of a walk, and the texts it checks. -/
@[ext]
structure Charges where
  visits : ℕ
  texts : List JsString

instance : Add Charges := ⟨fun left right =>
  ⟨left.visits + right.visits, left.texts ++ right.texts⟩⟩

instance : Zero Charges := ⟨⟨0, []⟩⟩

/-- What charges leave of a walk's work, where they stay within its limits. -/
def Spent (state : SchemaWork) (charges : Charges) (after : SchemaWork) : Prop :=
  charges.visits ≤ state.remaining ∧
    (∀ value ∈ charges.texts, fits state.byteLimit value = true) ∧
      after = { state with remaining := state.remaining - charges.visits }

section

variable {state after : SchemaWork}

theorem spent_zero : Spent state 0 after ↔ state = after := by
  constructor
  · rintro ⟨_, _, rfl⟩
    rfl
  · rintro rfl
    exact ⟨Nat.zero_le _, fun value hvalue => absurd hvalue List.not_mem_nil, rfl⟩

theorem spent_add {left right : Charges} :
    Spent state (left + right) after ↔
      ∃ middle, Spent state left middle ∧ Spent middle right after := by
  constructor
  · rintro ⟨hvisits, htexts, rfl⟩
    have hsum : left.visits + right.visits ≤ state.remaining := hvisits
    obtain ⟨hleft, hright⟩ := List.forall_mem_append.mp htexts
    refine ⟨_, ⟨(Nat.le_add_right _ _).trans hsum, hleft, rfl⟩, Nat.le_sub_of_add_le' hsum,
      hright, ?_⟩
    rw [Nat.sub_sub]
    rfl
  · rintro ⟨_, ⟨hvisits, hleft, rfl⟩, hrest, hright, rfl⟩
    refine ⟨?_, List.forall_mem_append.mpr ⟨hleft, hright⟩, ?_⟩
    · change left.visits + right.visits ≤ state.remaining
      exact Nat.add_le_of_le_sub' hvisits hrest
    · rw [Nat.sub_sub]
      rfl

theorem runs_visit {answer : Unit} : Runs visit state answer after ↔ Spent state ⟨1, []⟩ after := by
  obtain ⟨remaining, byteLimit, truncated, refs, ungrouped⟩ := state
  cases remaining with
  | zero =>
      constructor
      · intro hrun
        cases (Prod.mk.inj hrun).1
      · rintro ⟨hvisits, _, _⟩
        exact absurd hvisits (Nat.not_succ_le_zero 0)
  | succ remaining =>
      constructor
      · intro hrun
        obtain ⟨_, rfl⟩ := Prod.mk.inj hrun
        exact ⟨Nat.succ_le_succ (Nat.zero_le _),
          fun value hvalue => absurd hvalue List.not_mem_nil, rfl⟩
      · rintro ⟨_, _, rfl⟩
        rfl

theorem runs_text {value answer : JsString} :
    Runs (text value) state answer after ↔ answer = value ∧ Spent state ⟨0, [value]⟩ after := by
  rw [text, runs_bind]
  constructor
  · rintro ⟨work, middle, hget, hchecked⟩
    obtain ⟨rfl, rfl⟩ := runs_get.mp hget
    split_ifs at hchecked with hfits
    · obtain ⟨rfl, rfl⟩ := runs_pure.mp hchecked
      exact ⟨rfl, Nat.zero_le _, List.forall_mem_singleton.mpr hfits, rfl⟩
    · exact absurd hchecked not_runs_throw
  · rintro ⟨rfl, _, hfits, rfl⟩
    refine ⟨state, state, runs_get.mpr ⟨rfl, rfl⟩, ?_⟩
    rw [if_pos (List.forall_mem_singleton.mp hfits)]
    exact runs_pure.mpr ⟨rfl, rfl⟩

/-- A visit to each member, and a check of its name. -/
def namesCharges (members : List (JsString × Json)) : Charges :=
  ⟨members.length, members.map Prod.fst⟩

theorem runs_namesFrom {members : List (JsString × Json)} {answer : List JsString} :
    Runs (namesFrom members) state answer after ↔
      answer = members.map Prod.fst ∧ Spent state (namesCharges members) after := by
  induction members generalizing state answer with
  | nil =>
      rw [namesFrom, runs_pure]
      exact and_congr eq_comm spent_zero.symm
  | cons member rest ih =>
      have hsum : namesCharges (member :: rest) =
          ⟨1, []⟩ + (⟨0, [member.1]⟩ + namesCharges rest) := by
        apply Charges.ext
        · change rest.length + 1 = 1 + (0 + rest.length)
          omega
        · rfl
      rw [hsum, spent_add, namesFrom, runs_bind]
      constructor
      · rintro ⟨_, first, hvisit, hrun⟩
        obtain ⟨name, second, hname, hrun⟩ := runs_bind.mp hrun
        obtain ⟨names, third, hnames, hrun⟩ := runs_bind.mp hrun
        obtain ⟨rfl, rfl⟩ := runs_pure.mp hrun
        obtain ⟨rfl, hfits⟩ := runs_text.mp hname
        obtain ⟨rfl, hrest⟩ := ih.mp hnames
        exact ⟨rfl, first, runs_visit.mp hvisit, spent_add.mpr ⟨second, hfits, hrest⟩⟩
      · rintro ⟨rfl, first, hvisit, hrest⟩
        obtain ⟨second, hname, hnames⟩ := spent_add.mp hrest
        refine ⟨(), first, runs_visit.mpr hvisit, runs_bind.mpr
          ⟨_, second, runs_text.mpr ⟨rfl, hname⟩, runs_bind.mpr
            ⟨_, after, ih.mpr ⟨rfl, hnames⟩, runs_pure.mpr ⟨rfl, rfl⟩⟩⟩⟩

def requiredText (name : Json) : Option JsString := stringOf (some name)

/-- A visit to each entry, and a check of those that are strings. -/
def requiredCharges (names : List Json) : Charges :=
  ⟨names.length, names.filterMap requiredText⟩

theorem runs_requiredFrom {names : List Json} {answer : List JsString} :
    Runs (requiredFrom names) state answer after ↔
      answer = names.filterMap requiredText ∧ Spent state (requiredCharges names) after := by
  induction names generalizing state answer with
  | nil =>
      rw [requiredFrom, runs_pure]
      exact and_congr eq_comm spent_zero.symm
  | cons name rest ih =>
      have hskip (hname : requiredText name = none)
          (hprogram : requiredFrom (name :: rest) = (do visit; requiredFrom rest)) :
          Runs (requiredFrom (name :: rest)) state answer after ↔
            answer = (name :: rest).filterMap requiredText ∧
              Spent state (requiredCharges (name :: rest)) after := by
        have hsum : requiredCharges (name :: rest) = ⟨1, []⟩ + requiredCharges rest := by
          apply Charges.ext
          · exact Nat.add_comm _ _
          · exact List.filterMap_cons_none hname
        rw [hprogram, hsum, spent_add, List.filterMap_cons_none hname, runs_bind]
        constructor
        · rintro ⟨_, first, hvisit, hrun⟩
          obtain ⟨rfl, hrest⟩ := ih.mp hrun
          exact ⟨rfl, first, runs_visit.mp hvisit, hrest⟩
        · rintro ⟨rfl, first, hvisit, hrest⟩
          exact ⟨(), first, runs_visit.mpr hvisit, ih.mpr ⟨rfl, hrest⟩⟩
      cases name with
      | string key =>
          have hsum : requiredCharges (.string key :: rest) =
              ⟨1, []⟩ + (⟨0, [key]⟩ + requiredCharges rest) := by
            apply Charges.ext
            · change rest.length + 1 = 1 + (0 + rest.length)
              omega
            · rfl
          rw [hsum, spent_add, requiredFrom, runs_bind]
          constructor
          · rintro ⟨_, first, hvisit, hrun⟩
            obtain ⟨kept, second, hkept, hrun⟩ := runs_bind.mp hrun
            obtain ⟨more, third, hmore, hrun⟩ := runs_bind.mp hrun
            obtain ⟨rfl, rfl⟩ := runs_pure.mp hrun
            obtain ⟨rfl, hfits⟩ := runs_text.mp hkept
            obtain ⟨rfl, hrest⟩ := ih.mp hmore
            exact ⟨rfl, first, runs_visit.mp hvisit, spent_add.mpr ⟨second, hfits, hrest⟩⟩
          · rintro ⟨rfl, first, hvisit, hrest⟩
            obtain ⟨second, hkept, hmore⟩ := spent_add.mp hrest
            exact ⟨(), first, runs_visit.mpr hvisit, runs_bind.mpr
              ⟨_, second, runs_text.mpr ⟨rfl, hkept⟩, runs_bind.mpr
                ⟨_, after, ih.mpr ⟨rfl, hmore⟩, runs_pure.mpr ⟨rfl, rfl⟩⟩⟩⟩
      | null => exact hskip rfl rfl
      | bool value => exact hskip rfl rfl
      | number lexeme => exact hskip rfl rfl
      | array elements => exact hskip rfl rfl
      | object members => exact hskip rfl rfl

end

end Connecta.Catalog
