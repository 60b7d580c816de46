import Connecta.Arguments.Merging
import Connecta.Arguments.Redaction

/-!
# What a schema makes private

A subschema applies at a position of the arguments through references, properties,
items and branches.  A plan a schema compiles to is in normal form and omits exactly
what is at or below a position where a private subschema applies, whether or not the
alternatives of unions are merged.
-/

namespace Connecta.Arguments

open Connecta.Runtime

variable {Address : Type} (heap : Heap Address) (root : Address)

/-! ## Subschemas -/

/-- A subschema that applies at a place of a value to which a schema applies, with the
keyword it is read under. -/
inductive Part (fields : Fields Address) : String → List Step → Node Address → Prop where
  | reference {ref target : Node Address} (hget : fields.get "$ref" = some ref)
      (htarget : reference heap root ref = some target) : Part fields "$ref" [] target
  | property {node child : Node Address} {record : Fields Address} {name : JsString}
      (hget : fields.get "properties" = some node) (hrecord : recordOf heap node = some record)
      (hmem : (name, child) ∈ record.entries) : Part fields "properties" [.key name] child
  | prefixItem {list : List (Node Address)} {child : Node Address} {index : ℕ}
      (hget : listOf heap (fields.get "prefixItems") = some list)
      (hchild : list[index]? = some child) : Part fields "items" [.index index] child
  | items {child : Node Address} {index : ℕ} (hget : fields.get "items" = some child)
      (hschema : listOf heap (some child) = none)
      (hbeyond : ((listOf heap (fields.get "prefixItems")).getD []).length ≤ index) :
      Part fields "items" [.index index] child
  | listItem {list : List (Node Address)} {child : Node Address} {index : ℕ}
      (hget : listOf heap (fields.get "items") = some list)
      (hchild : list[index]? = some child) : Part fields "items" [.index index] child
  | additionalItem {list : List (Node Address)} {child : Node Address} {index : ℕ}
      (hget : listOf heap (fields.get "items") = some list)
      (hchild : fields.get "additionalItems" = some child) (hbeyond : list.length ≤ index) :
      Part fields "items" [.index index] child
  | branch {keyword : String} {list : List (Node Address)} {child : Node Address}
      (hkeyword : keyword ∈ ["allOf", "oneOf", "anyOf"])
      (hget : listOf heap (fields.get keyword) = some list) (hmem : child ∈ list) :
      Part fields keyword [] child

/-- A subschema that applies at a position of a value to which a schema applies. -/
inductive Applies : Node Address → List Step → Node Address → Prop where
  | self (node : Node Address) : Applies node [] node
  | part {address : Address} {fields : Fields Address} {keyword : String} {steps rest : List Step}
      {child target : Node Address} (hcell : heap address = .object fields)
      (hpart : Part heap root fields keyword steps child) (happlies : Applies child rest target) :
      Applies (.ref address) (steps ++ rest) target

def writeOnly : Node Address → Bool
  | .ref address => ownsWriteOnly (heap address)
  | _ => false

/-- A position where a private subschema applies. -/
def Private (node : Node Address) (position : List Step) : Prop :=
  ∃ target, Applies heap root node position target ∧ writeOnly heap target = true

/-- A position at or below one where a private subschema applies. -/
def Covered (node : Node Address) (position : List Step) : Prop :=
  ∃ start, start <+: position ∧ Private heap root node start

/-- The positions that the subschemas under a keyword cover. -/
def CoveredBy (fields : Fields Address) (keyword : String) (position : List Step) : Prop :=
  ∃ steps child rest, Part heap root fields keyword steps child ∧ position = steps ++ rest ∧
    Covered heap root child rest

variable {heap root}

theorem covered_of_writeOnly {node : Node Address} (hprivate : writeOnly heap node = true)
    (position : List Step) : Covered heap root node position :=
  ⟨[], List.nil_prefix, node, .self node, hprivate⟩

theorem covered_object {address : Address} {fields : Fields Address} {position : List Step}
    (hcell : heap address = .object fields) (hpublic : ownsWriteOnly (heap address) = false) :
    Covered heap root (.ref address) position ↔
      ∃ keyword, CoveredBy heap root fields keyword position := by
  constructor
  · rintro ⟨start, ⟨below, rfl⟩, target, happlies, hprivate⟩
    cases happlies with
    | self => exact absurd hprivate (ne_of_eq_of_ne hpublic Bool.false_ne_true)
    | @part _ fields' keyword steps rest child _ hcell' hpart happlies =>
        obtain rfl := Cell.object.inj (hcell.symm.trans hcell')
        exact ⟨keyword, steps, child, rest ++ below, hpart, List.append_assoc ..,
          rest, List.prefix_append .., target, happlies, hprivate⟩
  · rintro ⟨keyword, steps, child, rest, hpart, rfl, start, ⟨below, rfl⟩, target, happlies,
      hprivate⟩
    refine ⟨steps ++ start, ?_, target, .part hcell hpart happlies, hprivate⟩
    exact List.append_assoc steps start below ▸ List.prefix_append ..

/-- Nothing applies through a value that is no object. -/
theorem not_covered {node : Node Address}
    (hobject : ∀ address fields, node = .ref address → heap address ≠ .object fields)
    (position : List Step) : ¬ Covered heap root node position := by
  rintro ⟨start, -, target, happlies, hprivate⟩
  cases happlies with
  | self =>
      cases node with
      | ref address =>
          cases hcell : heap address with
          | object fields => exact hobject address fields rfl hcell
          | array entries =>
              rw [writeOnly, hcell] at hprivate
              cases hprivate
      | _ => cases hprivate
  | part hcell => exact hobject _ _ rfl hcell

/-! ## Runs of the compilation -/

theorem bind_eq_some {First Second : Type} {part : Compile First} {next : First → Compile Second}
    {visited : ℕ} {result : Second × ℕ} :
    (part >>= next) visited = some result ↔
      ∃ first between, part visited = some (first, between) ∧ next first between = some result := by
  refine Option.bind_eq_some_iff.trans ?_
  exact Prod.exists

theorem pure_eq_some {Result : Type} {value result : Result} {visited after : ℕ} :
    (pure value : Compile Result) visited = some (result, after) ↔
      value = result ∧ visited = after := by
  refine Option.some_inj.trans ?_
  exact Prod.mk.injEq .. ▸ Iff.rfl

theorem lift_eq_some {Result : Type} {value : Option Result} {result : Result}
    {visited after : ℕ} :
    (liftM value : Compile Result) visited = some (result, after) ↔
      value = some result ∧ visited = after := by
  cases value with
  | none => exact ⟨nofun, fun hnone => nomatch hnone.1⟩
  | some value =>
      refine Option.some_inj.trans ?_
      rw [Option.some_inj]
      exact Prod.mk.injEq .. ▸ Iff.rfl

theorem failure_ne_some {Result : Type} {visited : ℕ} {result : Result × ℕ} :
    (failure : Compile Result) visited ≠ some result := nofun

theorem failure_bind_ne_some {First Second : Type} {next : First → Compile Second} {visited : ℕ}
    {result : Second × ℕ} : (failure >>= next : Compile Second) visited ≠ some result := nofun

/-- What each part of a list compiles to. -/
theorem each_eq_some {Source Result : Type} {part : Source → Compile Result}
    {sources : List Source} {results : List Result} {visited after : ℕ}
    (heach : each part sources visited = some (results, after)) :
    List.Forall₂ (fun source result => ∃ before after, part source before = some (result, after))
      sources results := by
  induction sources generalizing results visited after with
  | nil =>
      rw [each, pure_eq_some] at heach
      obtain ⟨rfl, -⟩ := heach
      exact .nil
  | cons first rest ih =>
      obtain ⟨result, between, hfirst, heach⟩ := bind_eq_some.mp heach
      obtain ⟨others, between', hrest, heach⟩ := bind_eq_some.mp heach
      obtain ⟨rfl, -⟩ := pure_eq_some.mp heach
      exact .cons ⟨visited, between, hfirst⟩ (ih hrest)

theorem forall₂_left {Source Result : Type} {relation : Source → Result → Prop}
    {sources : List Source} {results : List Result}
    (hall : List.Forall₂ relation sources results) {source : Source} (hmem : source ∈ sources) :
    ∃ result ∈ results, relation source result := by
  induction hall with
  | nil => cases hmem
  | cons hfirst _ ih =>
      rcases List.mem_cons.mp hmem with rfl | hmem
      · exact ⟨_, List.mem_cons_self, hfirst⟩
      · obtain ⟨result, hresult, hrelation⟩ := ih hmem
        exact ⟨result, List.mem_cons_of_mem _ hresult, hrelation⟩

theorem forall₂_right {Source Result : Type} {relation : Source → Result → Prop}
    {sources : List Source} {results : List Result}
    (hall : List.Forall₂ relation sources results) {result : Result} (hmem : result ∈ results) :
    ∃ source ∈ sources, relation source result :=
  forall₂_left hall.flip hmem

/-! ## The keywords of a schema -/

variable {fields : Fields Address} {position : List Step}

theorem coveredBy_reference : CoveredBy heap root fields "$ref" position ↔
    ∃ ref target, fields.get "$ref" = some ref ∧ reference heap root ref = some target ∧
      Covered heap root target position := by
  constructor
  · rintro ⟨steps, child, rest, hpart, rfl, hcovered⟩
    generalize hkeyword : "$ref" = keyword at hpart
    cases hpart with
    | reference hget htarget => exact ⟨_, _, hget, htarget, hcovered⟩
    | branch hmem => exact absurd (hkeyword ▸ hmem) (by decide)
    | _ => exact absurd hkeyword (by decide)
  · rintro ⟨ref, target, hget, htarget, hcovered⟩
    exact ⟨[], target, position, .reference hget htarget, rfl, hcovered⟩

theorem coveredBy_properties : CoveredBy heap root fields "properties" position ↔
    ∃ node record name child rest, fields.get "properties" = some node ∧
      recordOf heap node = some record ∧ (name, child) ∈ record.entries ∧
        position = .key name :: rest ∧ Covered heap root child rest := by
  constructor
  · rintro ⟨steps, child, rest, hpart, rfl, hcovered⟩
    generalize hkeyword : "properties" = keyword at hpart
    cases hpart with
    | property hget hrecord hmem => exact ⟨_, _, _, _, rest, hget, hrecord, hmem, rfl, hcovered⟩
    | branch hmem => exact absurd (hkeyword ▸ hmem) (by decide)
    | _ => exact absurd hkeyword (by decide)
  · rintro ⟨node, record, name, child, rest, hget, hrecord, hmem, rfl, hcovered⟩
    exact ⟨[.key name], child, rest, .property hget hrecord hmem, rfl, hcovered⟩

theorem coveredBy_branches {keyword : String} (hkeyword : keyword ∈ ["allOf", "oneOf", "anyOf"]) :
    CoveredBy heap root fields keyword position ↔
      ∃ list child, listOf heap (fields.get keyword) = some list ∧ child ∈ list ∧
        Covered heap root child position := by
  constructor
  · rintro ⟨steps, child, rest, hpart, rfl, hcovered⟩
    cases hpart with
    | branch _ hget hmem => exact ⟨_, child, hget, hmem, hcovered⟩
    | _ => exact absurd hkeyword (by decide)
  · rintro ⟨list, child, hget, hmem, hcovered⟩
    exact ⟨[], child, position, .branch hkeyword hget hmem, rfl, hcovered⟩

variable (heap fields) in
/-- The schemas of the first items of an array and of the rest, as the keywords of one
draft give them. -/
def ItemSchemas (prefixes : List (Node Address)) (rest : Option (Node Address)) : Prop :=
  (∃ list, listOf heap (fields.get "items") = some list ∧ fields.get "prefixItems" = none ∧
      prefixes = list ∧ rest = fields.get "additionalItems") ∨
    (listOf heap (fields.get "items") = none ∧
      (listOf heap (fields.get "prefixItems")).getD [] = prefixes ∧ rest = fields.get "items")

theorem coveredBy_items {prefixes : List (Node Address)} {rest : Option (Node Address)}
    (hlists : ItemSchemas heap fields prefixes rest) :
    CoveredBy heap root fields "items" position ↔ ∃ index below, position = .index index :: below ∧
      ((∃ child, prefixes[index]? = some child ∧ Covered heap root child below) ∨
        prefixes.length ≤ index ∧ ∃ child, rest = some child ∧ Covered heap root child below) := by
  constructor
  · rintro ⟨steps, child, below, hpart, rfl, hcovered⟩
    generalize hkeyword : "items" = keyword at hpart
    cases hpart with
    | @prefixItem list _ index hget hchild =>
        refine ⟨index, below, rfl, .inl ⟨child, ?_, hcovered⟩⟩
        rcases hlists with ⟨_, _, hnone, -, -⟩ | ⟨-, hprefixes, -⟩
        · rw [hnone] at hget
          cases hget
        · rwa [← hprefixes, hget]
    | @items _ index hget hschema hbeyond =>
        refine ⟨index, below, rfl, .inr ?_⟩
        rcases hlists with ⟨list, hlist, -, -, -⟩ | ⟨-, hprefixes, hrest⟩
        · rw [hget, hschema] at hlist
          cases hlist
        · exact ⟨hprefixes ▸ hbeyond, child, hrest.trans hget, hcovered⟩
    | @listItem list _ index hget hchild =>
        refine ⟨index, below, rfl, .inl ⟨child, ?_, hcovered⟩⟩
        rcases hlists with ⟨list', hlist, -, rfl, -⟩ | ⟨hnone, -, -⟩
        · obtain rfl := Option.some.inj (hget.symm.trans hlist)
          exact hchild
        · rw [hget] at hnone
          cases hnone
    | @additionalItem list _ index hget hchild hbeyond =>
        refine ⟨index, below, rfl, .inr ?_⟩
        rcases hlists with ⟨list', hlist, -, rfl, hrest⟩ | ⟨hnone, -, -⟩
        · obtain rfl := Option.some.inj (hget.symm.trans hlist)
          exact ⟨hbeyond, child, hrest.trans hchild, hcovered⟩
        · rw [hget] at hnone
          cases hnone
    | branch hmem => exact absurd (hkeyword ▸ hmem) (by decide)
    | _ => exact absurd hkeyword (by decide)
  · rintro ⟨index, below, rfl, ⟨child, hchild, hcovered⟩ | ⟨hbeyond, child, hrest, hcovered⟩⟩
    · refine ⟨[.index index], child, below, ?_, rfl, hcovered⟩
      rcases hlists with ⟨list, hlist, -, rfl, -⟩ | ⟨-, hprefixes, -⟩
      · exact .listItem hlist hchild
      · cases hlist : listOf heap (fields.get "prefixItems") with
        | none =>
            rw [← hprefixes, hlist] at hchild
            cases hchild
        | some list =>
            rw [← hprefixes, hlist] at hchild
            exact .prefixItem hlist hchild
    · refine ⟨[.index index], child, below, ?_, rfl, hcovered⟩
      rcases hlists with ⟨list, hlist, -, rfl, hrest'⟩ | ⟨hnone, hprefixes, hrest'⟩
      · exact .additionalItem hlist (hrest'.symm.trans hrest) hbeyond
      · have hget := hrest'.symm.trans hrest
        exact .items hget (hget ▸ hnone) (hprefixes ▸ hbeyond)

theorem coveredBy_iff : (∃ keyword, CoveredBy heap root fields keyword position) ↔
    CoveredBy heap root fields "$ref" position ∨ CoveredBy heap root fields "properties" position ∨
      CoveredBy heap root fields "items" position ∨ CoveredBy heap root fields "allOf" position ∨
        CoveredBy heap root fields "oneOf" position ∨
          CoveredBy heap root fields "anyOf" position := by
  constructor
  · rintro ⟨keyword, hcovered⟩
    have hkeyword : keyword ∈ ["$ref", "properties", "items", "allOf", "oneOf", "anyOf"] := by
      obtain ⟨steps, child, rest, hpart, -⟩ := hcovered
      cases hpart with
      | branch hmem => exact List.mem_cons_of_mem _ (List.mem_cons_of_mem _
          (List.mem_cons_of_mem _ hmem))
      | _ => decide
    simp only [List.mem_cons, List.not_mem_nil, or_false] at hkeyword
    rcases hkeyword with rfl | rfl | rfl | rfl | rfl | rfl <;>
      simp only [hcovered, true_or, or_true]
  · rintro (hcovered | hcovered | hcovered | hcovered | hcovered | hcovered) <;>
      exact ⟨_, hcovered⟩

end Connecta.Arguments
