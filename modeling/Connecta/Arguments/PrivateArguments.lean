import Connecta.Arguments.Echo

/-!
# Private arguments

A schema that makes a value private holds its annotation where the search for one
finds it.  So an echo that is not withheld leaves out the private values of the
arguments, and the redaction of outputs visits each of them.
-/

namespace Connecta.Arguments

open Connecta.Runtime

variable {Address : Type} {heap : Heap Address}

/-! ## The search for an annotation -/

/-- What an object or an array holds, at any depth. -/
inductive Holds (heap : Heap Address) : Address → Address → Prop where
  | self (address : Address) : Holds heap address address
  | step {address next target : Address} (hholds : Holds heap address next)
      (hmem : .ref target ∈ (heap next).values) : Holds heap address target

/-- A value that is held, where it has an address. -/
def Held (heap : Heap Address) (root : Address) (node : Node Address) : Prop :=
  ∀ address, node = .ref address → Holds heap root address

theorem Held.entry {root : Address} {node child : Node Address} {address : Address}
    (hheld : Held heap root node) (hnode : node = .ref address)
    (hmem : child ∈ (heap address).values) : Held heap root child := by
  rintro target rfl
  exact .step (hheld address hnode) hmem

theorem Fields.own_mem {fields : Fields Address} {key : JsString} {node : Node Address}
    (hown : fields.own key = some node) : node ∈ fields.entries.map Prod.snd := by
  obtain ⟨entry, hfound, rfl⟩ := Option.map_eq_some_iff.mp hown
  exact List.mem_map_of_mem (List.mem_of_find?_eq_some hfound)

/-- An own property is held, but for the length of an array. -/
theorem Held.own {root address : Address} {key : JsString} {node : Node Address}
    (hheld : Held heap root (.ref address)) (hown : (heap address).own key = some node) :
    Held heap root node := by
  cases hcell : heap address with
  | object fields =>
      rw [hcell] at hown
      exact hheld.entry rfl (by rw [hcell]; exact Fields.own_mem hown)
  | array entries =>
      rw [hcell, Cell.own] at hown
      split_ifs at hown
      · obtain rfl := Option.some.inj hown
        exact fun _ heq => by cases heq
      · obtain ⟨entry, hfound, rfl⟩ := Option.map_eq_some_iff.mp hown
        obtain ⟨-, -, hentry⟩ := List.mem_zipIdx (List.mem_of_find?_eq_some hfound)
        refine hheld.entry rfl ?_
        rw [hcell, hentry]
        exact List.getElem_mem _

theorem Held.follow {root : Address} {path : List JsString} {node target : Node Address}
    (hheld : Held heap root node) (hfollow : follow heap node path = some target) :
    Held heap root target := by
  induction path generalizing node with
  | nil => exact Option.some.inj hfollow ▸ hheld
  | cons encoded rest ih =>
      obtain ⟨key, -, hfollow⟩ := Option.bind_eq_some_iff.mp hfollow
      cases node with
      | ref address =>
          obtain ⟨next, hown, hfollow⟩ := Option.bind_eq_some_iff.mp hfollow
          exact ih (hheld.own hown) hfollow
      | _ => cases hfollow

theorem held_reference {root : Address} {ref target : Node Address}
    (htarget : reference heap root ref = some target) : Held heap root target := by
  have hroot : Held heap root (.ref root) := by
    intro address heq
    exact Node.ref.inj heq ▸ .self root
  rw [reference.eq_def] at htarget
  split at htarget
  · split_ifs at htarget with hfragment
    obtain ⟨pointer, -, htarget⟩ := Option.bind_eq_some_iff.mp htarget
    cases pointer with
    | nil => exact Option.some.inj htarget ▸ hroot
    | cons slash path =>
        dsimp only at htarget
        split_ifs at htarget
        exact hroot.follow htarget
  · cases htarget

theorem held_listOf {root address : Address} {fields : Fields Address} {key : String}
    {list : List (Node Address)} {child : Node Address} (hheld : Held heap root (.ref address))
    (hcell : heap address = .object fields) (hget : listOf heap (fields.get key) = some list)
    (hmem : child ∈ list) : Held heap root child := by
  cases hown : fields.get key with
  | none =>
      rw [hown] at hget
      cases hget
  | some node =>
      have hnode : Held heap root node :=
        hheld.entry rfl (by rw [hcell]; exact Fields.own_mem hown)
      rw [hown] at hget
      cases node with
      | ref next =>
          rw [listOf] at hget
          cases hnext : heap next with
          | object _ =>
              rw [hnext] at hget
              cases hget
          | array entries =>
              rw [hnext] at hget
              obtain rfl := Option.some.inj hget
              exact hnode.entry rfl (by rw [hnext]; exact hmem)
      | _ => cases hget

theorem held_part {root address : Address} {fields : Fields Address} {keyword : String}
    {steps : List Step} {child : Node Address} (hheld : Held heap root (.ref address))
    (hcell : heap address = .object fields) (hpart : Part heap root fields keyword steps child) :
    Held heap root child := by
  have hown : ∀ {key : String} {node : Node Address}, fields.get key = some node →
      Held heap root node :=
    fun hget => hheld.entry rfl (by rw [hcell]; exact Fields.own_mem hget)
  cases hpart with
  | reference hget htarget => exact held_reference htarget
  | @property node _ record name hget hrecord hmem =>
      cases node with
      | ref next =>
          rw [recordOf] at hrecord
          cases hnext : heap next with
          | array _ =>
              rw [hnext] at hrecord
              cases hrecord
          | object _ =>
              rw [hnext] at hrecord
              obtain rfl := Option.some.inj hrecord
              exact (hown hget).entry rfl (by rw [hnext]; exact List.mem_map_of_mem hmem)
      | _ => cases hrecord
  | prefixItem hget hchild | listItem hget hchild =>
      exact held_listOf hheld hcell hget (List.mem_of_getElem? hchild)
  | items hget => exact hown hget
  | additionalItem _ hchild => exact hown hchild
  | branch _ hget hmem => exact held_listOf hheld hcell hget hmem

theorem held_applies {root : Address} {node target : Node Address} {position : List Step}
    (hheld : Held heap root node) (happlies : Applies heap root node position target) :
    Held heap root target := by
  induction happlies with
  | self => exact hheld
  | part hcell hpart _ ih => exact ih (held_part hheld hcell hpart)

section Search

variable [DecidableEq Address] [Fintype Address]

variable (heap) in
/-- How many values are still to be pushed. -/
def unseen (seen : List Address) : ℕ :=
  ∑ address with address ∉ seen, (heap address).values.length

variable (heap) in
theorem unseen_cons {address : Address} {seen : List Address} (hnew : address ∉ seen) :
    (heap address).values.length + unseen heap (address :: seen) = unseen heap seen := by
  have herase : Finset.univ.filter (· ∉ address :: seen) =
      (Finset.univ.filter (· ∉ seen)).erase address := by
    ext other
    simp [not_or]
  rw [unseen, unseen, herase]
  exact Finset.add_sum_erase _ (fun address => (heap address).values.length)
    (Finset.mem_filter.mpr ⟨Finset.mem_univ _, hnew⟩)

/-- A search that finds no annotation has seen all that what is pending holds. -/
theorem findPrivate_closed {rounds : ℕ} {pending : List (Node Address)} {seen : List Address}
    (hnone : findPrivate heap rounds pending seen = false)
    (hrounds : pending.length + unseen heap seen < rounds)
    (hseen : ∀ address ∈ seen, ownsWriteOnly (heap address) = false ∧
      ∀ next, .ref next ∈ (heap address).values → next ∈ seen ∨ .ref next ∈ pending) :
    ∃ closed : List Address, (∀ address ∈ seen, address ∈ closed) ∧
      (∀ address, .ref address ∈ pending → address ∈ closed) ∧
        ∀ address ∈ closed, ownsWriteOnly (heap address) = false ∧
          ∀ next, .ref next ∈ (heap address).values → next ∈ closed := by
  induction rounds generalizing pending seen with
  | zero => omega
  | succ rounds ih =>
      cases pending with
      | nil =>
          refine ⟨seen, fun _ hmem => hmem, nofun, fun address hmem => ?_⟩
          refine ⟨(hseen address hmem).1, fun next hnext => ?_⟩
          exact ((hseen address hmem).2 next hnext).resolve_right nofun
      | cons first pending =>
          rw [List.length_cons] at hrounds
          -- A value that needs no look is dropped.
          have hdrop : findPrivate heap rounds pending seen = false →
              (∀ address, first = .ref address → address ∈ seen) →
                ∃ closed : List Address, (∀ address ∈ seen, address ∈ closed) ∧
                  (∀ address, .ref address ∈ first :: pending → address ∈ closed) ∧
                    ∀ address ∈ closed, ownsWriteOnly (heap address) = false ∧
                      ∀ next, .ref next ∈ (heap address).values → next ∈ closed := by
            intro hnone hfirst
            obtain ⟨closed, hsub, hpending, hclosed⟩ := ih hnone (by omega) fun address hmem =>
              ⟨(hseen address hmem).1, fun next hnext => by
                rcases (hseen address hmem).2 next hnext with hnext | hnext
                · exact .inl hnext
                · rcases List.mem_cons.mp hnext with heq | hnext
                  · exact .inl (hfirst next heq.symm)
                  · exact .inr hnext⟩
            refine ⟨closed, hsub, fun address hmem => ?_, hclosed⟩
            rcases List.mem_cons.mp hmem with heq | hmem
            · exact hsub address (hfirst address heq.symm)
            · exact hpending address hmem
          cases first with
          | ref address =>
              rw [findPrivate] at hnone
              split_ifs at hnone with hmem hprivate
              · refine hdrop hnone fun other heq => ?_
                exact Node.ref.inj heq ▸ hmem
              · have hcount := unseen_cons heap hmem
                obtain ⟨closed, hsub, hpending, hclosed⟩ := ih hnone
                  (by rw [List.length_append, List.length_reverse]; omega)
                  fun other hother => by
                    rcases List.mem_cons.mp hother with rfl | hother
                    · refine ⟨Bool.eq_false_iff.mpr hprivate, fun next hnext => .inr ?_⟩
                      exact List.mem_append_left _ (List.mem_reverse.mpr hnext)
                    · refine ⟨(hseen other hother).1, fun next hnext => ?_⟩
                      rcases (hseen other hother).2 next hnext with hnext | hnext
                      · exact .inl (List.mem_cons_of_mem _ hnext)
                      · rcases List.mem_cons.mp hnext with heq | hnext
                        · exact .inl (Node.ref.inj heq ▸ List.mem_cons_self)
                        · exact .inr (List.mem_append_right _ hnext)
                refine ⟨closed, fun other hother => hsub other (List.mem_cons_of_mem _ hother),
                  fun other hother => ?_, hclosed⟩
                rcases List.mem_cons.mp hother with heq | hother
                · exact hsub other (Node.ref.inj heq ▸ List.mem_cons_self)
                · exact hpending other (List.mem_append_right _ hother)
          | _ => exact hdrop hnone fun _ heq => by cases heq

theorem privateSchema_of_holds {schema address : Address} (hholds : Holds heap schema address)
    (hprivate : ownsWriteOnly (heap address) = true) : privateSchema heap schema = true := by
  by_contra hnone
  rw [Bool.not_eq_true, privateSchema] at hnone
  have hcount : unseen heap [] = ∑ address, (heap address).values.length := by
    simp [unseen]
  obtain ⟨closed, -, hpending, hclosed⟩ := findPrivate_closed hnone
    (by rw [hcount, List.length_singleton]; omega) nofun
  have hmem : address ∈ closed := by
    clear hprivate
    induction hholds with
    | self => exact hpending schema (List.mem_singleton_self _)
    | step _ hmem ih => exact (hclosed _ ih).2 _ hmem
  rw [(hclosed address hmem).1] at hprivate
  cases hprivate

end Search

/-! ## Calls -/

section Calls

variable {localeCompare : JsString → JsString → Bool} {schema : Address}

/-- What is removed at a position is what a private subschema applies to there. -/
theorem beneath_private {plan : Plan} (hsaid : Says heap schema (.ref schema) plan) :
    Beneath (fun position => omits plan position = true)
      (Private heap schema (.ref schema)) :=
  hsaid.omits

variable [DecidableEq Address]

theorem says_of_compile {unionAlternatives : Bool} {plan : Plan}
    (hcompile : compile heap ⟨schema, unionAlternatives, localeCompare⟩ = some plan) :
    Says heap schema (.ref schema) plan := by
  obtain ⟨⟨plan', after⟩, hrun, rfl⟩ := Option.map_eq_some_iff.mp hcompile
  exact says_of_walk _ _ _ _ _ _ hrun

variable (heap localeCompare schema) in
theorem redactCallArguments_cases (args : Json) :
    (redactCallArguments heap localeCompare args schema = ⟨none, true⟩) ∨
      ∃ plan kept marks, compile heap ⟨schema, false, localeCompare⟩ = some plan ∧
        apply (MAX_DEPTH + 1) args plan = (some (some kept), marks) ∧
          (redactCallArguments heap localeCompare args schema).value = some kept := by
  rw [redactCallArguments]
  cases hcompile : compile heap ⟨schema, false, localeCompare⟩ with
  | none => exact .inl rfl
  | some plan =>
      dsimp only
      rcases happly : apply (MAX_DEPTH + 1) args plan with ⟨_ | _ | kept, marks⟩
      · exact .inl rfl
      · have hmarks := marks_ne_nil happly
        refine .inl ?_
        cases marks with
        | nil => exact absurd rfl hmarks
        | cons _ _ => rfl
      · exact .inr ⟨plan, kept, marks, rfl, happly, rfl⟩

theorem redactCallArguments_stays {args kept : Json}
    (hvalue : (redactCallArguments heap localeCompare args schema).value = some kept) :
    Stays (Private heap schema (.ref schema)) args (some kept) := by
  rcases redactCallArguments_cases heap localeCompare schema args with
      hwithheld | ⟨plan, kept', marks, hcompile, happly, hkept⟩
  · rw [hwithheld] at hvalue
    cases hvalue
  · obtain rfl := Option.some.inj (hvalue.symm.trans hkept)
    exact (apply_stays happly).first (beneath_private (says_of_compile hcompile))

variable (heap schema) in
/-- A schema of which it is not known what it makes private: through an applicator that
is not evaluated, or by one alternative of a union and not by another. -/
inductive Unclear (fields : Fields Address) : Prop where
  | unread {child : Node Address} {position : List Step} (hunread : Unread heap fields child)
      (hprivate : Private heap schema child position) : Unclear fields
  | union {keyword : String} {list : List (Node Address)} {one two : Node Address}
      {position : List Step} (hkeyword : keyword ∈ ["oneOf", "anyOf"])
      (hget : listOf heap (fields.get keyword) = some list) (hone : one ∈ list) (htwo : two ∈ list)
      (hcovered : Covered heap schema one position) (hpublic : ¬ Covered heap schema two position) :
      Unclear fields

theorem walk_clear {levels : ℕ} {active : List Address} {address : Address}
    {fields : Fields Address} {visited after : ℕ} {plan : Plan}
    (hrun : walk heap ⟨schema, false, localeCompare⟩ levels active (.ref address) visited =
      some (plan, after))
    (hcell : heap address = .object fields) (hpublic : ownsWriteOnly (heap address) = false) :
    ¬ Unclear heap schema fields := by
  cases levels with
  | zero => exact absurd hrun failure_ne_some
  | succ levels =>
      obtain ⟨fields', hcell', hrun⟩ := walk_public hpublic hrun
      obtain rfl := Cell.object.inj (hcell.symm.trans hcell')
      have hfaithful : Faithful heap schema
          (walk heap ⟨schema, false, localeCompare⟩ levels (address :: active)) :=
        says_of_walk levels (address :: active)
      intro hunclear
      cases hunclear with
      | unread hunread hprivate =>
          obtain ⟨_, _, _, hchild, hinsensitive⟩ := walkFields_unread hrun hunread
          have hcovered : Covered heap schema _ _ := ⟨_, List.prefix_rfl, hprivate⟩
          rw [← (hfaithful _ _ _ _ hchild).omits, sensitive_eq_false hinsensitive,
            omits_public] at hcovered
          cases hcovered
      | union hkeyword hget hone htwo hcovered hpublic =>
          obtain ⟨-, -, -, -, honeOf, hanyOf, -, -⟩ := walkFields_runs hrun
          simp only [List.mem_cons, List.not_mem_nil, or_false] at hkeyword
          rcases hkeyword with rfl | rfl
          · exact hpublic (branchesPlan_agree hfaithful (by decide) honeOf hget hone htwo hcovered)
          · exact hpublic (branchesPlan_agree hfaithful (by decide) hanyOf hget hone htwo hcovered)

theorem compile_unclear {address : Address} {fields : Fields Address}
    (hexamined : Examined heap schema (.ref schema) (.ref address))
    (hcell : heap address = .object fields) (hpublic : ownsWriteOnly (heap address) = false)
    (hunclear : Unclear heap schema fields) :
    compile heap ⟨schema, false, localeCompare⟩ = none := by
  by_contra hsome
  obtain ⟨plan, hcompile⟩ := Option.ne_none_iff_exists'.mp hsome
  obtain ⟨⟨plan', after⟩, hrun, -⟩ := Option.map_eq_some_iff.mp hcompile
  obtain ⟨levels, active, before, plan, after, hwalk⟩ := walk_examined hrun hexamined
  exact walk_clear hwalk hcell hpublic hunclear

theorem compile_union {plan : Plan}
    (hcompile : compile heap ⟨schema, false, localeCompare⟩ = some plan) :
    compile heap ⟨schema, true, localeCompare⟩ = some plan := by
  obtain ⟨⟨plan', after⟩, hrun, rfl⟩ := Option.map_eq_some_iff.mp hcompile
  have hunion := walk_extends ⟨schema, false, localeCompare⟩ _ _ _ _ _ hrun
  exact Option.map_eq_some_iff.mpr ⟨_, hunion, rfl⟩

variable [Fintype Address]

/-- A private value of the arguments is visited, or one that it is a part of. -/
theorem visited_of_covered {plan : Plan} {args found : Json} {position : List Step}
    (hcompile : compile heap ⟨schema, false, localeCompare⟩ = some plan)
    (hvalue : valueAt position args = some found)
    (hcovered : Covered heap schema (.ref schema) position) :
    ∃ above whole, above <+: position ∧ valueAt above args = some whole ∧
      whole ∈ visitPrivateCallArguments heap localeCompare args schema := by
  have hprivate : privateSchema heap schema = true := by
    obtain ⟨start, -, target, happlies, hprivate⟩ := hcovered
    have hheld := held_applies (fun address heq => Node.ref.inj heq ▸ .self schema) happlies
    cases target with
    | ref address => exact privateSchema_of_holds (hheld address rfl) hprivate
    | _ => cases hprivate
  rw [visitPrivateCallArguments, hprivate, if_neg (by simp), compile_union hcompile]
  dsimp only
  rcases happly : apply (MAX_DEPTH + 1) args plan with ⟨_ | result, marks⟩
  · exact ⟨[], args, List.nil_prefix, rfl, List.mem_append_right _ (List.mem_singleton_self args)⟩
  · exact apply_marks happly hvalue (((says_of_compile hcompile).omits position).mpr hcovered)

end Calls

/-! ## The whole of it -/

/-- An echo is withheld, or leaves out exactly what is private and the arrays around it;
what is unclear withholds it; merging is a union of plans; and what is private is
visited. -/
theorem arguments_redacted [DecidableEq Address] [Fintype Address] (heap : Heap Address)
    (localeCompare : JsString → JsString → Bool) (schema : Address) :
    (∀ args, redactCallArguments heap localeCompare args schema = ⟨none, true⟩ ∨
      ∃ kept, (redactCallArguments heap localeCompare args schema).value = some kept ∧
        Stays (Private heap schema (.ref schema)) args (some kept)) ∧
    (∀ address fields, Examined heap schema (.ref schema) (.ref address) →
      heap address = .object fields → ownsWriteOnly (heap address) = false →
        Unclear heap schema fields →
          ∀ args, redactCallArguments heap localeCompare args schema = ⟨none, true⟩) ∧
    (∀ unionAlternatives plan,
      compile heap ⟨schema, unionAlternatives, localeCompare⟩ = some plan → Normal plan) ∧
    (∀ left middle right : NormalPlan,
      equal (merge (merge left.plan middle.plan) right.plan)
          (merge left.plan (merge middle.plan right.plan)) = true ∧
        equal (merge left.plan right.plan) (merge right.plan left.plan) = true ∧
        equal (merge left.plan left.plan) left.plan = true ∧
        ∀ position, omits left.plan position = true ∨ omits right.plan position = true →
          omits (merge left.plan right.plan) position = true) ∧
    ((compile heap ⟨schema, false, localeCompare⟩).isSome →
      ∀ args position found, valueAt position args = some found →
        Covered heap schema (.ref schema) position →
          ∃ above whole, above <+: position ∧ valueAt above args = some whole ∧
            whole ∈ visitPrivateCallArguments heap localeCompare args schema) := by
  refine ⟨fun args => ?_, ?_, ?_, ?_, ?_⟩
  · refine (redactCallArguments_cases heap localeCompare schema args).imp_right ?_
    rintro ⟨-, kept, -, -, -, hvalue⟩
    exact ⟨kept, hvalue, redactCallArguments_stays hvalue⟩
  · intro address fields hexamined hcell hpublic hunclear args
    rw [redactCallArguments, compile_unclear hexamined hcell hpublic hunclear]
  · exact fun unionAlternatives plan hcompile => (says_of_compile hcompile).normal
  · intro left middle right
    have hself : ∀ plan : Plan, equal plan plan = true := fun plan => decide_eq_true rfl
    have hassoc := congrArg NormalPlan.plan (sup_assoc left middle right)
    have hcomm := congrArg NormalPlan.plan (sup_comm left right)
    have hidem := congrArg NormalPlan.plan (sup_idem left)
    refine ⟨?_, ?_, ?_, fun position hone => ?_⟩
    · exact (congrArg (equal · _) hassoc).trans (hself _)
    · exact (congrArg (equal · _) hcomm).trans (hself _)
    · exact (congrArg (equal · _) hidem).trans (hself _)
    · exact hone.elim (fun hleft => le_sup_left (a := left) (b := right) hleft)
        fun hright => le_sup_right (a := left) (b := right) hright
  · intro hsome args position found hvalue hcovered
    obtain ⟨plan, hcompile⟩ := Option.isSome_iff_exists.mp hsome
    exact visited_of_covered hcompile hvalue hcovered

/-- An object with one own property. -/
def oneField {Address : Type} (key : String) (value : Node Address) : Cell Address :=
  .object ⟨[(JsString.ofAscii key, value)], List.nodup_singleton _⟩

def nameOrder (left right : JsString) : Bool := left ≤ right

/-- `{"properties":{"a":{"prefixItems":[{"writeOnly":true}]}}}` -/
def privateElement : Heap (Fin 5)
  | 0 => oneField "properties" (.ref 1)
  | 1 => oneField "a" (.ref 2)
  | 2 => oneField "prefixItems" (.ref 3)
  | 3 => .array [.ref 4]
  | 4 => oneField "writeOnly" (.bool true)

/-- `{"a":["s","p"]}` -/
def elementArgs : Json :=
  .object [(JsString.ofAscii "a",
    .array [.string (JsString.ofAscii "s"), .string (JsString.ofAscii "p")])]

/-- `{"additionalProperties":{"writeOnly":true}}` -/
def privateRest : Heap (Fin 2)
  | 0 => oneField "additionalProperties" (.ref 1)
  | 1 => oneField "writeOnly" (.bool true)

/-- A private element takes its array with it, and is visited; a private rest of the
properties withholds every echo. -/
theorem arguments_redacted_element :
    (∃ kept, (redactCallArguments privateElement nameOrder elementArgs 0).value = some kept ∧
      Stays (Private privateElement 0 (.ref 0)) elementArgs (some kept)) ∧
    (∃ above whole, above <+: [.key (JsString.ofAscii "a"), .index 0] ∧
      valueAt above elementArgs = some whole ∧
        whole ∈ visitPrivateCallArguments privateElement nameOrder elementArgs 0) ∧
    ∀ args, redactCallArguments privateRest nameOrder args 0 = ⟨none, true⟩ := by
  have helement := arguments_redacted privateElement nameOrder 0
  have hrest := arguments_redacted privateRest nameOrder 0
  refine ⟨?_, ?_, ?_⟩
  · refine (helement.1 elementArgs).resolve_left fun hwithheld => ?_
    have hvalue : (redactCallArguments privateElement nameOrder elementArgs 0).value =
        some (.object []) := rfl
    rw [hwithheld] at hvalue
    cases hvalue
  · have happlies : Applies privateElement 0 (.ref 0)
        ([.key (JsString.ofAscii "a")] ++ ([.index 0] ++ [])) (.ref 4) :=
      .part rfl (.property rfl rfl List.mem_cons_self) (.part rfl (.prefixItem rfl rfl) (.self _))
    exact helement.2.2.2.2 rfl elementArgs _ (.string (JsString.ofAscii "s")) rfl
      ⟨_, List.prefix_rfl, .ref 4, happlies, rfl⟩
  · have hunread : Unread privateRest ⟨[(JsString.ofAscii "additionalProperties", .ref 1)],
        List.nodup_singleton _⟩ (.ref 1) :=
      @Unread.schema _ _ _ "additionalProperties" _ (by decide) rfl
    exact hrest.2.1 0 _ (.self _) rfl rfl (.unread hunread ⟨.ref 1, .self _, rfl⟩)

/-- `{"properties":{"p":{"writeOnly":true,"not":{"writeOnly":true}}}}` -/
def privateAbove : Heap (Fin 4)
  | 0 => oneField "properties" (.ref 1)
  | 1 => oneField "p" (.ref 2)
  | 2 => .object ⟨[(JsString.ofAscii "writeOnly", .bool true), (JsString.ofAscii "not", .ref 3)],
      by decide⟩
  | 3 => oneField "writeOnly" (.bool true)

/-- `{"q":1}` -/
def publicArgs : Json := .object [(JsString.ofAscii "q", .number (JsString.ofAscii "1"))]

/-- What is removed around a private element is not visited, no schema below a private
one withholds anything, and merging a plan outside the normal form changes it. -/
theorem elements_unvisited :
    ((redactCallArguments privateElement nameOrder elementArgs 0).value = some (.object []) ∧
      valueAt [.key (JsString.ofAscii "a"), .index 1] elementArgs =
        some (.string (JsString.ofAscii "p")) ∧
      ¬ ∃ above whole, above <+: [.key (JsString.ofAscii "a"), .index 1] ∧
        valueAt above elementArgs = some whole ∧
          whole ∈ visitPrivateCallArguments privateElement nameOrder elementArgs 0) ∧
    ((∃ fields, privateAbove 2 = .object fields ∧ Unread privateAbove fields (.ref 3)) ∧
      Examined privateAbove 0 (.ref 0) (.ref 2) ∧ writeOnly privateAbove (.ref 3) = true ∧
        (redactCallArguments privateAbove nameOrder publicArgs 0).value = some publicArgs) ∧
    equal (merge (.mk false [] [PUBLIC] none) (.mk false [] [PUBLIC] none))
      (.mk false [] [PUBLIC] none) = false := by
  refine ⟨⟨rfl, rfl, ?_⟩, ⟨⟨_, rfl, @Unread.schema _ _ _ "not" _ (by decide) rfl⟩, ?_, rfl, rfl⟩,
    by decide⟩
  · rintro ⟨above, whole, habove, hvalue, hvisited⟩
    have hvisits : visitPrivateCallArguments privateElement nameOrder elementArgs 0 =
        [.string (JsString.ofAscii "s")] := rfl
    rw [hvisits] at hvisited
    obtain rfl := List.mem_singleton.mp hvisited
    have hinit := (List.mem_inits _ _).mpr habove
    simp only [List.inits, List.map_cons, List.map_nil, List.mem_cons, List.not_mem_nil,
      or_false] at hinit
    rcases hinit with rfl | rfl | rfl
    · cases hvalue
    · cases hvalue
    · exact absurd (Json.string.inj (Option.some.inj hvalue)) (by decide)
  · exact .part rfl rfl (.property rfl rfl List.mem_cons_self) (.self _)

end Connecta.Arguments
