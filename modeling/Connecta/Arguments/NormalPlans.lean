import Connecta.Arguments.Plans

/-!
# Plans in normal form

What a plan omits is a set of positions that holds everything below a position of
it.  A plan in normal form is the only one for its set, so its text tells it from
every other, and merging two of them gives the plan of the union.
-/

namespace Connecta.Arguments

open Connecta.Runtime
open Connecta.Inputs (keyPrecedes)
open Connecta.Http (keyPrecedes_trans keyPrecedes_total keyPrecedes_antisymm)

/-! ## What a plan omits -/

/-- One step into a value. -/
inductive Step where
  | key (name : JsString)
  | index (position : ℕ)
  deriving DecidableEq

def omits : Plan → List Step → Bool
  | plan, [] => plan.omitted
  | plan, .key name :: rest => plan.omitted || omits (field plan.properties name) rest
  | plan, .index position :: rest => plan.omitted || omits (item plan position) rest

theorem omits_of_omitted {plan : Plan} (homitted : plan.omitted = true) (position : List Step) :
    omits plan position = true := by
  cases position with
  | nil => exact homitted
  | cons step rest => cases step <;> rw [omits, homitted, Bool.true_or]

@[simp]
theorem omits_public (position : List Step) : omits PUBLIC position = false := by
  induction position with
  | nil => rfl
  | cons step rest ih => cases step <;> exact ih

@[simp]
theorem omits_omit (position : List Step) : omits OMIT position = true :=
  omits_of_omitted rfl position

theorem sensitive_eq_false {plan : Plan} (hpublic : sensitive plan = false) : plan = PUBLIC := by
  rcases plan with ⟨_ | _, _ | _, _ | _, _ | _⟩ <;> first | rfl | cases hpublic

theorem sensitive_of_omits {plan : Plan} {position : List Step}
    (homits : omits plan position = true) : sensitive plan = true := by
  by_contra hpublic
  rw [sensitive_eq_false (Bool.eq_false_iff.mpr hpublic), omits_public] at homits
  cases homits

/-! ## Fields -/

theorem field_of_mem {properties : List (JsString × Plan)} {name : JsString}
    (hmem : name ∈ properties.map Prod.fst) :
    ∃ entry ∈ properties, entry.1 = name ∧ field properties name = entry.2 := by
  obtain ⟨entry, hentry, hname⟩ := List.mem_map.mp hmem
  have hfound : (properties.find? fun entry => entry.1 = name).isSome :=
    List.find?_isSome.mpr ⟨entry, hentry, decide_eq_true hname⟩
  obtain ⟨found, hfound⟩ := Option.isSome_iff_exists.mp hfound
  have hkey := List.find?_some hfound
  refine ⟨found, List.mem_of_find?_eq_some hfound, of_decide_eq_true hkey, ?_⟩
  rw [field, hfound]
  rfl

theorem field_of_notMem {properties : List (JsString × Plan)} {name : JsString}
    (hmem : name ∉ properties.map Prod.fst) : field properties name = PUBLIC := by
  have hnone : (properties.find? fun entry => entry.1 = name) = none := by
    refine List.find?_eq_none.mpr fun entry hentry hname => hmem ?_
    exact List.mem_map.mpr ⟨entry, hentry, of_decide_eq_true hname⟩
  rw [field, hnone]
  rfl

theorem field_eq {properties : List (JsString × Plan)}
    (hkeys : (properties.map Prod.fst).Nodup) {entry : JsString × Plan}
    (hmem : entry ∈ properties) : field properties entry.1 = entry.2 := by
  obtain ⟨found, hfound, hname, heq⟩ := field_of_mem (List.mem_map_of_mem (f := Prod.fst) hmem)
  rw [heq, List.inj_on_of_nodup_map hkeys hfound hmem hname]

theorem item_of_lt {plan : Plan} {index : ℕ} (hindex : index < plan.prefixes.length) :
    item plan index = plan.prefixes[index] := by
  rw [item, List.getElem?_eq_getElem hindex, Option.getD_some]

theorem item_of_le {plan : Plan} {index : ℕ} (hindex : plan.prefixes.length ≤ index) :
    item plan index = plan.items.getD PUBLIC := by
  rw [item, List.getElem?_eq_none hindex, Option.getD_none]

/-! ## Normal forms -/

/-- The keys of an object in their own order, none twice. -/
def Ordered (properties : List (JsString × Plan)) : Prop :=
  properties.Pairwise fun one two => keyPrecedes one.1 two.1 = true ∧ one.1 ≠ two.1

/-- A plan whose fields say something private, and which ends its prefixes where the
items take over. -/
inductive Normal : Plan → Prop where
  | omitted : Normal OMIT
  | shown {properties : List (JsString × Plan)} {prefixes : List Plan} {items : Option Plan}
      (hordered : Ordered properties)
      (hproperties : ∀ entry ∈ properties, Normal entry.2)
      (hprivate : ∀ entry ∈ properties, sensitive entry.2 = true)
      (hprefixes : ∀ plan ∈ prefixes, Normal plan)
      (hlast : ∀ plan, prefixes.getLast? = some plan → plan ≠ items.getD PUBLIC)
      (hitems : ∀ plan, items = some plan → Normal plan)
      (hsensitive : ∀ plan, items = some plan → sensitive plan = true) :
      Normal (.mk false properties prefixes items)

theorem normal_public : Normal PUBLIC :=
  .shown .nil nofun nofun nofun nofun nofun nofun

/-- What `merge` needs of a plan: that the plans in it are in normal form. -/
structure Parts (plan : Plan) : Prop where
  properties : ∀ entry ∈ plan.properties, Normal entry.2
  isPrivate : ∀ entry ∈ plan.properties, sensitive entry.2 = true
  prefixes : ∀ part ∈ plan.prefixes, Normal part
  items : ∀ part, plan.items = some part → Normal part

theorem Normal.parts {plan : Plan} (hnormal : Normal plan) : Parts plan := by
  cases hnormal with
  | omitted => exact ⟨nofun, nofun, nofun, nofun⟩
  | shown hordered hproperties hprivate hprefixes hlast hitems hsensitive =>
      exact ⟨hproperties, hprivate, hprefixes, hitems⟩

theorem Parts.field {plan : Plan} (hparts : Parts plan) (name : JsString) :
    Normal (field plan.properties name) := by
  by_cases hmem : name ∈ plan.properties.map Prod.fst
  · obtain ⟨entry, hentry, -, heq⟩ := field_of_mem hmem
    rw [heq]
    exact hparts.properties entry hentry
  · rw [field_of_notMem hmem]
    exact normal_public

theorem Parts.rest {plan : Plan} (hparts : Parts plan) : Normal (plan.items.getD PUBLIC) := by
  cases hitems : plan.items with
  | none => exact normal_public
  | some part => exact hparts.items part hitems

theorem Parts.item {plan : Plan} (hparts : Parts plan) (index : ℕ) :
    Normal (item plan index) := by
  rcases lt_or_ge index plan.prefixes.length with hindex | hindex
  · rw [item_of_lt hindex]
    exact hparts.prefixes _ (List.getElem_mem hindex)
  · rw [item_of_le hindex]
    exact hparts.rest

theorem Ordered.nodup {properties : List (JsString × Plan)} (hordered : Ordered properties) :
    (properties.map Prod.fst).Nodup :=
  List.pairwise_map.mpr (hordered.imp fun hpair => hpair.2)

/-- A plan in normal form that says something omits something. -/
theorem Normal.exists_omits {plan : Plan} (hnormal : Normal plan)
    (hsensitive : sensitive plan = true) : ∃ position, omits plan position = true := by
  induction hnormal with
  | omitted => exact ⟨[], rfl⟩
  | @shown properties prefixes items hordered hproperties hprivate hprefixes hlast hitems hrest
      ihproperties ihprefixes ihitems =>
      cases items with
      | some part =>
          obtain ⟨position, homits⟩ := ihitems part rfl (hrest part rfl)
          refine ⟨.index prefixes.length :: position, ?_⟩
          rw [omits, item_of_le (by exact le_rfl), Bool.or_eq_true]
          exact .inr homits
      | none =>
          rcases List.eq_nil_or_concat prefixes with rfl | ⟨others, last, rfl⟩
          · cases properties with
            | nil => cases hsensitive
            | cons entry others =>
                obtain ⟨position, homits⟩ :=
                  ihproperties entry List.mem_cons_self (hprivate entry List.mem_cons_self)
                refine ⟨.key entry.1 :: position, ?_⟩
                have hfield := field_eq hordered.nodup (List.mem_cons_self (a := entry))
                rw [omits, Bool.or_eq_true]
                exact .inr ((congrArg (omits · position) hfield).trans homits)
          · have hmem : last ∈ others.concat last := by simp
            have hprivate : sensitive last = true := by
              by_contra hpublic
              exact hlast last (by simp)
                (sensitive_eq_false (Bool.eq_false_iff.mpr hpublic))
            obtain ⟨position, homits⟩ := ihprefixes last hmem hprivate
            refine ⟨.index others.length :: position, ?_⟩
            have hitem : item (.mk false properties (others.concat last) none) others.length =
                last := by
              rw [item]
              simp [Plan.prefixes]
            rw [omits, hitem, Bool.or_eq_true]
            exact .inr homits

theorem Normal.eq_public {plan : Plan} (hnormal : Normal plan)
    (hnone : ∀ position, omits plan position = false) : plan = PUBLIC := by
  apply sensitive_eq_false
  by_contra hsensitive
  obtain ⟨position, homits⟩ := hnormal.exists_omits (Bool.eq_true_of_not_eq_false hsensitive)
  rw [hnone] at homits
  cases homits

theorem Normal.eq_omit {plan : Plan} (hnormal : Normal plan) (homitted : plan.omitted = true) :
    plan = OMIT := by
  cases hnormal with
  | omitted => rfl
  | shown => cases homitted

/-- The plans of the items beyond the prefixes, where they are told by their plan. -/
theorem items_eq {left right : Option Plan}
    (hleft : ∀ plan, left = some plan → sensitive plan = true)
    (hright : ∀ plan, right = some plan → sensitive plan = true)
    (hrest : left.getD PUBLIC = right.getD PUBLIC) : left = right := by
  cases left with
  | none =>
      cases right with
      | none => rfl
      | some part =>
          have hpart := hright part rfl
          rw [← show PUBLIC = part from hrest] at hpart
          cases hpart
  | some part =>
      cases right with
      | none =>
          have hpart := hleft part rfl
          rw [show part = PUBLIC from hrest] at hpart
          cases hpart
      | some other => exact congrArg some hrest

/-- A list of prefixes is no longer than another, where both end before the items of one
sequence take over. -/
theorem prefixes_length_le {left right : Plan} (hsame : ∀ index, item left index = item right index)
    (hrest : left.items.getD PUBLIC = right.items.getD PUBLIC)
    (hlast : ∀ plan, right.prefixes.getLast? = some plan → plan ≠ right.items.getD PUBLIC) :
    right.prefixes.length ≤ left.prefixes.length := by
  by_contra hlong
  have hindex : right.prefixes.length - 1 < right.prefixes.length := by omega
  refine hlast right.prefixes[right.prefixes.length - 1] ?_ ?_
  · rw [List.getLast?_eq_getElem?, List.getElem?_eq_getElem hindex]
  · rw [← item_of_lt hindex, ← hsame, item_of_le (by omega), hrest]

/-- A property of one plan is one of another that omits the same under its name. -/
theorem mem_of_same_field {left right : List (JsString × Plan)}
    (hkeys : (left.map Prod.fst).Nodup) {entry : JsString × Plan} (hmem : entry ∈ left)
    (hnormal : Normal entry.2) (hsensitive : sensitive entry.2 = true)
    (hsame : ∀ position, omits (field left entry.1) position =
      omits (field right entry.1) position)
    (hunique : ∀ other ∈ right,
      (∀ position, omits entry.2 position = omits other.2 position) → entry.2 = other.2) :
    entry ∈ right := by
  have hleft := field_eq hkeys hmem
  obtain ⟨position, homits⟩ := hnormal.exists_omits hsensitive
  rw [← hleft, hsame] at homits
  have hname : entry.1 ∈ right.map Prod.fst := by
    by_contra hname
    rw [field_of_notMem hname, omits_public] at homits
    cases homits
  obtain ⟨other, hother, hname, hright⟩ := field_of_mem hname
  have hvalue := hunique other hother fun position => by rw [← hleft, ← hright, hsame]
  rwa [show entry = other from Prod.ext hname.symm hvalue]

/-- Two plans in normal form that omit the same are the same. -/
theorem Normal.unique {left right : Plan} (hleft : Normal left) (hright : Normal right)
    (hsame : ∀ position, omits left position = omits right position) : left = right := by
  induction hleft generalizing right with
  | omitted => exact (hright.eq_omit (hsame []).symm).symm
  | @shown properties prefixes items hordered hproperties hprivate hprefixes hlast hitems hrest
      ihproperties ihprefixes ihitems =>
      cases hright with
      | omitted => cases hsame []
      | @shown properties' prefixes' items' hordered' hproperties' hprivate' hprefixes' hlast'
          hitems' hrest' =>
          have hfield : ∀ name position, omits (field properties name) position =
              omits (field properties' name) position :=
            fun name position => hsame (.key name :: position)
          -- The same properties, hence in the same order.
          have hmem : ∀ entry, entry ∈ properties ↔ entry ∈ properties' := by
            intro entry
            constructor
            · intro hentry
              exact mem_of_same_field hordered.nodup hentry (hproperties entry hentry)
                (hprivate entry hentry) (hfield entry.1) fun other hother hplan =>
                  ihproperties entry hentry (hproperties' other hother) hplan
            · intro hentry
              exact mem_of_same_field hordered'.nodup hentry (hproperties' entry hentry)
                (hprivate' entry hentry) (fun position => (hfield entry.1 position).symm)
                fun other hother hplan => (ihproperties other hother
                  (hproperties' entry hentry) fun position => (hplan position).symm).symm
          have hlist : properties = properties' := by
            have hperm : properties.Perm properties' :=
              (List.perm_ext_iff_of_nodup hordered.nodup.of_map hordered'.nodup.of_map).mpr hmem
            refine hperm.eq_of_pairwise ?_ hordered hordered'
            intro one two hone htwo hle hge
            exact absurd (keyPrecedes_antisymm hle.1 hge.1) hle.2
          -- The same sequence of items, hence the same prefixes of it.
          have hitem : ∀ index, item (.mk false properties prefixes items) index =
              item (.mk false properties' prefixes' items') index := by
            intro index
            have hnormal := (Normal.shown hordered' hproperties' hprivate' hprefixes' hlast' hitems'
              hrest').parts.item index
            have hposition : ∀ position,
                omits (item (.mk false properties prefixes items) index) position =
                  omits (item (.mk false properties' prefixes' items') index) position :=
              fun position => hsame (.index index :: position)
            rcases lt_or_ge index prefixes.length with hindex | hindex
            · rw [item_of_lt (by exact hindex)] at hposition ⊢
              exact ihprefixes _ (List.getElem_mem hindex) hnormal hposition
            · rw [item_of_le (by exact hindex)] at hposition ⊢
              cases items with
              | none =>
                  exact (hnormal.eq_public fun position =>
                    (hposition position).symm.trans (omits_public position)).symm
              | some part => exact ihitems part rfl hnormal hposition
          have hend : items.getD PUBLIC = items'.getD PUBLIC := by
            have hboth := hitem (max prefixes.length prefixes'.length)
            rwa [item_of_le (by exact le_max_left ..), item_of_le (by exact le_max_right ..)]
              at hboth
          have hlength : prefixes.length = prefixes'.length :=
            le_antisymm (prefixes_length_le (fun index => (hitem index).symm) hend.symm hlast)
              (prefixes_length_le hitem hend hlast')
          have hprefixes : prefixes = prefixes' := by
            refine List.ext_getElem hlength fun index hindex hindex' => ?_
            have hboth := hitem index
            rwa [item_of_lt (by exact hindex), item_of_lt (by exact hindex')] at hboth
          rw [hlist, hprefixes, items_eq hrest hrest' hend]

/-! ## The text of a plan -/

theorem propertiesJson_eq (properties : List (JsString × Plan)) :
    propertiesJson properties = properties.map fun entry => (entry.1, planJson entry.2) := by
  induction properties with
  | nil => rfl
  | cons first others ih => rw [propertiesJson, ih, List.map_cons]

theorem prefixesJson_eq (prefixes : List Plan) : prefixesJson prefixes = prefixes.map planJson := by
  induction prefixes with
  | nil => rfl
  | cons first others ih => rw [prefixesJson, ih, List.map_cons]

theorem key_optionalMember {key : String} {value : Option Json} {member : JsString × Json}
    (hmem : member ∈ optionalMember key value) : member.1 = JsString.ofAscii key := by
  obtain ⟨value, -, rfl⟩ := Option.map_eq_some_iff.mp (Option.mem_toList.mp hmem)
  rfl

theorem keys_optionalMember (key : String) (value : Option Json) :
    ((optionalMember key value).map Prod.fst).Sublist [JsString.ofAscii key] := by
  cases value with
  | none => exact List.nil_sublist _
  | some value => exact List.Sublist.refl _

/-- A member that is left out is told from one that is there. -/
theorem optionalMember_cancel {key : String} {left right : Option Json}
    {others more : List (JsString × Json)}
    (hothers : ∀ member ∈ others, member.1 ≠ JsString.ofAscii key)
    (hmore : ∀ member ∈ more, member.1 ≠ JsString.ofAscii key)
    (heq : optionalMember key left ++ others = optionalMember key right ++ more) :
    left = right ∧ others = more := by
  cases left with
  | none =>
      cases right with
      | none => exact ⟨rfl, heq⟩
      | some value =>
          have hothers' : others = (JsString.ofAscii key, value) :: more := heq
          exact absurd rfl (hothers _ (hothers' ▸ List.mem_cons_self))
  | some value =>
      cases right with
      | none =>
          have hmore' : (JsString.ofAscii key, value) :: others = more := heq
          exact absurd rfl (hmore _ (hmore' ▸ List.mem_cons_self))
      | some other =>
          obtain ⟨hmember, hrest⟩ := List.cons.inj heq
          exact ⟨congrArg some (Prod.mk.inj hmember).2, hrest⟩

mutual

theorem planJson_injective : ∀ left right : Plan, planJson left = planJson right → left = right
  | .mk omitted properties prefixes items, .mk omitted' properties' prefixes' items', heq => by
      rw [planJson, planJson] at heq
      have hne : ∀ {first second : String} {value : Option Json},
          JsString.ofAscii second ≠ JsString.ofAscii first →
            ∀ member ∈ optionalMember second value, member.1 ≠ JsString.ofAscii first :=
        fun hne member hmem hkey => hne ((key_optionalMember hmem).symm.trans hkey)
      obtain ⟨homitted, heq⟩ := optionalMember_cancel
        (List.forall_mem_append.mpr ⟨hne (by decide),
          List.forall_mem_append.mpr ⟨hne (by decide), hne (by decide)⟩⟩)
        (List.forall_mem_append.mpr ⟨hne (by decide),
          List.forall_mem_append.mpr ⟨hne (by decide), hne (by decide)⟩⟩) (Json.object.inj heq)
      obtain ⟨hproperties, heq⟩ := optionalMember_cancel
        (List.forall_mem_append.mpr ⟨hne (by decide), hne (by decide)⟩)
        (List.forall_mem_append.mpr ⟨hne (by decide), hne (by decide)⟩) heq
      obtain ⟨hprefixes, heq⟩ := optionalMember_cancel (hne (by decide)) (hne (by decide)) heq
      have homitted : omitted = omitted' := by
        cases omitted <;> cases omitted' <;> first | rfl | cases homitted
      have hproperties : propertiesJson properties = propertiesJson properties' := by
        split_ifs at hproperties with hleft hright hright
        · rw [hleft, hright]
        · exact Json.object.inj (Option.some.inj hproperties)
      have hprefixes : prefixesJson prefixes = prefixesJson prefixes' := by
        split_ifs at hprefixes with hleft hright hright
        · rw [hleft, hright]
        · exact Json.array.inj (Option.some.inj hprefixes)
      have hitems : itemsJson items = itemsJson items' :=
        (@optionalMember_cancel "items" _ _ [] [] nofun nofun
          (by rw [List.append_nil, List.append_nil]; exact heq)).1
      rw [homitted, propertiesJson_injective _ _ hproperties, prefixesJson_injective _ _ hprefixes,
        itemsJson_injective _ _ hitems]

theorem propertiesJson_injective : ∀ left right : List (JsString × Plan),
    propertiesJson left = propertiesJson right → left = right
  | [], [], _ => rfl
  | [], _ :: _, heq => nomatch heq
  | _ :: _, [], heq => nomatch heq
  | (name, plan) :: others, (name', plan') :: others', heq => by
      rw [propertiesJson, propertiesJson] at heq
      obtain ⟨hmember, hothers⟩ := List.cons.inj heq
      obtain ⟨rfl, hplan⟩ := Prod.mk.inj hmember
      rw [planJson_injective _ _ hplan, propertiesJson_injective _ _ hothers]

theorem prefixesJson_injective : ∀ left right : List Plan,
    prefixesJson left = prefixesJson right → left = right
  | [], [], _ => rfl
  | [], _ :: _, heq => nomatch heq
  | _ :: _, [], heq => nomatch heq
  | plan :: others, plan' :: others', heq => by
      rw [prefixesJson, prefixesJson] at heq
      obtain ⟨hplan, hothers⟩ := List.cons.inj heq
      rw [planJson_injective _ _ hplan, prefixesJson_injective _ _ hothers]

theorem itemsJson_injective : ∀ left right : Option Plan,
    itemsJson left = itemsJson right → left = right
  | none, none, _ => rfl
  | none, some _, heq => nomatch heq
  | some _, none, heq => nomatch heq
  | some plan, some plan', heq => by
      rw [itemsJson, itemsJson] at heq
      rw [planJson_injective _ _ (Option.some.inj heq)]

end

/-- No object of a plan in normal form has a key twice. -/
theorem Normal.valid {plan : Plan} (hnormal : Normal plan) : Json.Valid (planJson plan) := by
  induction hnormal with
  | omitted =>
      refine .object (by decide) fun member hmem => ?_
      obtain rfl := List.mem_singleton.mp hmem
      exact .bool true
  | @shown properties prefixes items hordered hproperties hprivate hprefixes hlast hitems hrest
      ihproperties ihprefixes ihitems =>
      have hkeys : ((propertiesJson properties).map Prod.fst).Nodup := by
        rw [propertiesJson_eq, List.map_map]
        exact hordered.nodup
      have hmembers : ∀ member ∈ propertiesJson properties, Json.Valid member.2 := by
        intro member hmem
        rw [propertiesJson_eq] at hmem
        obtain ⟨entry, hentry, rfl⟩ := List.mem_map.mp hmem
        exact ihproperties entry hentry
      have helements : ∀ element ∈ prefixesJson prefixes, Json.Valid element := by
        intro element hmem
        rw [prefixesJson_eq] at hmem
        obtain ⟨part, hpart, rfl⟩ := List.mem_map.mp hmem
        exact ihprefixes part hpart
      rw [planJson]
      constructor
      · simp only [List.map_append]
        have hsublist := (keys_optionalMember "omit"
            (if false then some (.bool true) else none)).append
          ((keys_optionalMember "properties" (if properties = [] then none
              else some (.object (propertiesJson properties)))).append
            ((keys_optionalMember "prefix" (if prefixes = [] then none
                else some (.array (prefixesJson prefixes)))).append
              (keys_optionalMember "items" (itemsJson items))))
        exact hsublist.nodup (by decide)
      · intro member hmem
        simp only [List.mem_append] at hmem
        rcases hmem with hmem | hmem | hmem | hmem
        · cases hmem
        · split_ifs at hmem
          · cases hmem
          · obtain rfl := List.mem_singleton.mp hmem
            exact .object hkeys hmembers
        · split_ifs at hmem
          · cases hmem
          · obtain rfl := List.mem_singleton.mp hmem
            exact .array helements
        · cases items with
          | none => cases hmem
          | some part =>
              obtain rfl := List.mem_singleton.mp hmem
              exact ihitems part rfl

theorem Normal.equal_iff {left right : Plan} (hleft : Normal left) (hright : Normal right) :
    equal left right = true ↔ left = right := by
  rw [equal, decide_eq_true_eq]
  constructor
  · intro htext
    exact planJson_injective _ _ (Json.stringify_injective hleft.valid hright.valid htext)
  · rintro rfl
    rfl

end Connecta.Arguments
