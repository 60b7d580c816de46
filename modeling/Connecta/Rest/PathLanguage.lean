import Mathlib.Data.List.Nodup
import Connecta.Rest.ReviewedPaths

/-!
# The language of a reviewed path

A path moves from a value to a child of it, with the segments that are left.  The
positions it reaches with no segment left are the ones it redacts; a map it reaches
with `@keys` loses its keys.  Every other value of a body is kept, and the path finds
nothing more to change in what it leaves.
-/

namespace Connecta.ReviewedPaths

open Connecta.Runtime

/-! ## Positions -/

inductive Step where
  | index (index : ℕ)
  | key (key : JsString)

abbrev Position := List Step

def child : Value → Step → Option Value
  | .array items, .index index => items[index]?
  | .object _ members, .key key => get members key
  | _, _ => none

def valueAt : Value → Position → Option Value
  | value, [] => some value
  | value, step :: rest => (child value step).bind fun value => valueAt value rest

/-- One value and another with the same children's places. -/
def SameNode : Value → Value → Prop
  | .array items, .array others => items.length = others.length
  | .object _ members, .object _ others => members.map Prod.fst = others.map Prod.fst
  | .array _, _ => False
  | .object _ _, _ => False
  | value, other => value = other

theorem SameNode.refl (value : Value) : SameNode value value := by
  cases value <;> rfl

/-! ## The language -/

/-- A segment that selects the items of a list itself. -/
def Segment.selects : Segment → Bool
  | .items => true
  | .only _ => true
  | _ => false

section Language

variable (test : Predicate → Value → Option Bool)

/-- A path moves to a child, with what is left of it. -/
inductive Moves : List Segment → Value → Step → List Segment → Value → Prop where
  | item {rest : List Segment} {items : List Value} {index : ℕ} {item : Value}
      (hitem : items[index]? = some item) :
      Moves (.items :: rest) (.array items) (.index index) rest item
  | only {predicate : Predicate} {rest : List Segment} {items : List Value} {index : ℕ}
      {item : Value} (hitem : items[index]? = some item)
      (hselected : test predicate item = some true) :
      Moves (.only predicate :: rest) (.array items) (.index index) rest item
  | through {segment : Segment} {rest : List Segment} {items : List Value} {index : ℕ}
      {item : Value} (hsegment : segment.selects = false) (hitem : items[index]? = some item) :
      Moves (segment :: rest) (.array items) (.index index) (segment :: rest) item
  | value {rest : List Segment} {marks : Marks} {members : List (JsString × Value)}
      {key : JsString} {value : Value} (hvalue : get members key = some value) :
      Moves (.map :: rest) (.object marks members) (.key key) rest value
  | named {rest : List Segment} {marks : Marks} {members : List (JsString × Value)}
      {name : JsString} {value : Value} (hvalue : get members name = some value) :
      Moves (.named name :: rest) (.object marks members) (.key name) rest value

inductive Reaches : List Segment → Value → Position → List Segment → Value → Prop where
  | here {segments : List Segment} {value : Value} : Reaches segments value [] segments value
  | move {segments left last : List Segment} {value next found : Value} {step : Step}
      {position : Position} (hmove : Moves test segments value step left next)
      (hreach : Reaches left next position last found) :
      Reaches segments value (step :: position) last found

/-- A position whose value a path redacts, or whose map loses its keys. -/
def Ends (segments : List Segment) (body : Value) (position : Position) : Prop :=
  (∃ value, Reaches test segments body position [] value) ∨
    ∃ rest marks members,
      Reaches test segments body position (.keys :: rest) (.object marks members)

/-- What a path leaves of a body: the language of the path, and nothing else, changes. -/
structure Redacts (finish : Value → Value) (segments : List Segment) (body result : Value) :
    Prop where
  matched : ∀ position value, Reaches test segments body position [] value →
    valueAt result position = some (finish value)
  keys : ∀ position rest marks members,
    Reaches test segments body position (.keys :: rest) (.object marks members) →
      ∃ others, valueAt result position = some (.object { placeholderKeys := true } others) ∧
        others.map Prod.snd = members.map Prod.snd ∧ (others.map Prod.fst).Nodup ∧
          ∀ other ∈ others, redactionAltered other.1 = true
  kept : ∀ position value, valueAt body position = some value →
    (∀ before, before <+: position → ¬ Ends test segments body before) →
      ∃ found, valueAt result position = some found ∧ SameNode value found

end Language

/-! ## Walking the children -/

section Walk

variable {test : Predicate → Value → Option Bool} {finish : Value → Value}

theorem walkItems_getElem {items found : List Value} {predicate : Option Predicate}
    {segments : List Segment}
    (hwalk : walkItems test finish items predicate segments = some found) :
    found.length = items.length ∧ ∀ (index : ℕ) (item : Value), items[index]? = some item →
      ∃ selected other, predicate.elim (some true) (fun predicate => test predicate item) =
          some selected ∧ found[index]? = some other ∧
        (if selected then walk test finish item segments else some item) = some other := by
  induction items generalizing found with
  | nil =>
      obtain rfl := Option.some.inj hwalk
      exact ⟨rfl, by simp⟩
  | cons first others ih =>
      rw [walkItems] at hwalk
      simp only [Option.bind_eq_bind, Option.bind_eq_some_iff, Option.pure_def,
        Option.some.injEq] at hwalk
      obtain ⟨selected, hselected, head, hhead, tail, htail, rfl⟩ := hwalk
      obtain ⟨hlength, hitems⟩ := ih htail
      refine ⟨congrArg Nat.succ hlength, fun index item hitem => ?_⟩
      cases index with
      | zero =>
          obtain rfl := Option.some.inj hitem
          exact ⟨selected, head, hselected, rfl, hhead⟩
      | succ index => exact hitems index item hitem

theorem walkMembers_get {members found : List (JsString × Value)} {name : Option JsString}
    {segments : List Segment}
    (hwalk : walkMembers test finish members name segments = some found) :
    found.map Prod.fst = members.map Prod.fst ∧ ∀ key value, get members key = some value →
      ∃ other, get found key = some other ∧
        (if name.elim true (fun name => key = name) then walk test finish value segments
          else some value) = some other := by
  induction members generalizing found with
  | nil =>
      obtain rfl := Option.some.inj hwalk
      exact ⟨rfl, by simp [get]⟩
  | cons first others ih =>
      obtain ⟨head, headValue⟩ := first
      rw [walkMembers] at hwalk
      simp only [Option.bind_eq_bind, Option.bind_eq_some_iff, Option.pure_def,
        Option.some.injEq] at hwalk
      obtain ⟨value, hvalue, tail, htail, rfl⟩ := hwalk
      obtain ⟨hkeys, hmembers⟩ := ih htail
      refine ⟨congrArg (head :: ·) hkeys, fun key found hfound => ?_⟩
      simp only [get, List.find?_cons] at hfound ⊢
      by_cases hkey : head = key
      · subst hkey
        simp only [decide_true, Option.map_some, Option.some.injEq] at hfound ⊢
        subst hfound
        exact ⟨value, rfl, hvalue⟩
      · simp only [hkey, decide_false] at hfound ⊢
        exact hmembers key found hfound

theorem Moves.child {segments left : List Segment} {value next : Value} {step : Step}
    (hmove : Moves test segments value step left next) : child value step = some next := by
  cases hmove <;> assumption

theorem Moves.unique {segments left other : List Segment} {value next found : Value} {step : Step}
    (hmove : Moves test segments value step left next)
    (hother : Moves test segments value step other found) : left = other ∧ next = found := by
  have hnext := Option.some.inj (hmove.child.symm.trans hother.child)
  refine ⟨?_, hnext⟩
  cases hmove <;> cases hother <;> first | rfl | simp_all [Segment.selects]

/-- A walk that neither ends here nor takes the keys leaves the node and walks its
children. -/
structure Descends (test : Predicate → Value → Option Bool) (finish : Value → Value)
    (segments : List Segment) (value result : Value) : Prop where
  remains : segments ≠ []
  members : ∀ rest marks members, ¬ (segments = .keys :: rest ∧ value = .object marks members)
  node : SameNode value result
  child : ∀ step next, child value step = some next → ∃ other, child result step = some other ∧
    ((∃ left, Moves test segments value step left next ∧
        walk test finish next left = some other) ∨
      ((∀ left found, ¬ Moves test segments value step left found) ∧ other = next))

theorem descends_stays {segments : List Segment} {value : Value} (hopen : segments ≠ [])
    (hmembers : ∀ rest marks members, ¬ (segments = .keys :: rest ∧ value = .object marks members))
    (hstays : ∀ step left found, ¬ Moves test segments value step left found) :
    Descends test finish segments value value :=
  ⟨hopen, hmembers, SameNode.refl value, fun step next hnext =>
    ⟨next, hnext, Or.inr ⟨hstays step, rfl⟩⟩⟩

theorem descends_items {segments : List Segment} {items found : List Value}
    {predicate : Option Predicate} {left : List Segment} (hopen : segments ≠ [])
    (hwalk : walkItems test finish items predicate left = some found)
    (hmoves : ∀ (index : ℕ) (item : Value), items[index]? = some item →
      predicate.elim (some true) (fun predicate => test predicate item) = some true →
        Moves test segments (.array items) (.index index) left item)
    (hstays : ∀ (index : ℕ) (item : Value), items[index]? = some item →
      predicate.elim (some true) (fun predicate => test predicate item) = some false →
        ∀ left found, ¬ Moves test segments (.array items) (.index index) left found) :
    Descends test finish segments (.array items) (.array found) := by
  obtain ⟨hlength, hitems⟩ := walkItems_getElem hwalk
  refine ⟨hopen, fun _ _ _ hkeys => (by cases hkeys.2), hlength.symm, fun step next hnext => ?_⟩
  cases step with
  | key key => cases hnext
  | index index =>
      obtain ⟨selected, other, hselected, hother, hfound⟩ := hitems index next hnext
      refine ⟨other, hother, ?_⟩
      cases selected with
      | true => exact Or.inl ⟨left, hmoves index next hnext hselected, hfound⟩
      | false =>
          exact Or.inr ⟨hstays index next hnext hselected, (Option.some.inj hfound).symm⟩

theorem descends_members {segments : List Segment} {marks : Marks}
    {members found : List (JsString × Value)} {name : Option JsString} {left : List Segment}
    (hopen : segments ≠ []) (hkeys : ∀ rest, segments ≠ .keys :: rest)
    (hwalk : walkMembers test finish members name left = some found)
    (hmoves : ∀ key value, get members key = some value →
      name.elim true (fun name => key = name) = true →
        Moves test segments (.object marks members) (.key key) left value)
    (hstays : ∀ key, name.elim true (fun name => key = name) = false →
      ∀ left found, ¬ Moves test segments (.object marks members) (.key key) left found) :
    Descends test finish segments (.object marks members) (.object {} found) := by
  obtain ⟨hsame, hmembers⟩ := walkMembers_get hwalk
  refine ⟨hopen, fun rest _ _ heq => hkeys rest heq.1, hsame.symm, fun step next hnext => ?_⟩
  cases step with
  | index index => cases hnext
  | key key =>
      obtain ⟨other, hother, hfound⟩ := hmembers key next hnext
      refine ⟨other, hother, ?_⟩
      cases hselected : name.elim true (fun name => key = name) with
      | true =>
          rw [hselected, if_pos rfl] at hfound
          exact Or.inl ⟨left, hmoves key next hnext hselected, hfound⟩
      | false =>
          rw [hselected, if_neg Bool.false_ne_true] at hfound
          exact Or.inr ⟨hstays key hselected, (Option.some.inj hfound).symm⟩

theorem descends_scalar {segments : List Segment} {value : Value} (hopen : segments ≠ [])
    (hchild : ∀ step, child value step = none) (hobject : ∀ marks members,
      value ≠ .object marks members) : Descends test finish segments value value := by
  refine descends_stays hopen (fun _ _ _ heq => hobject _ _ heq.2) ?_
  intro step left found hmove
  have hfound := hmove.child
  rw [hchild step] at hfound
  cases hfound

/-- What a walk does at one node. -/
theorem walk_cases {segments : List Segment} {value result : Value}
    (hwalk : walk test finish value segments = some result) :
    (segments = [] ∧ result = finish value) ∨
      (∃ rest marks members, segments = .keys :: rest ∧ value = .object marks members ∧
        result = .object { placeholderKeys := true } (renamed members)) ∨
      Descends test finish segments value result := by
  cases segments with
  | nil =>
      refine Or.inl ⟨rfl, ?_⟩
      cases value <;> exact (Option.some.inj hwalk).symm
  | cons segment rest =>
      refine Or.inr ?_
      have hopen : segment :: rest ≠ [] := List.cons_ne_nil segment rest
      cases value with
      | null | bool | number | string =>
          obtain rfl := Option.some.inj hwalk
          exact Or.inr (descends_scalar hopen (fun step => rfl) (by simp))
      | array items =>
          refine Or.inr ?_
          cases segment with
          | items =>
              obtain ⟨found, hfound, rfl⟩ := Option.map_eq_some_iff.mp hwalk
              refine descends_items hopen hfound (fun _ _ hitem _ => .item hitem) ?_
              intro index item hitem hselected
              cases hselected
          | only predicate =>
              obtain ⟨found, hfound, rfl⟩ := Option.map_eq_some_iff.mp hwalk
              refine descends_items hopen hfound (fun _ _ hitem hselected => .only hitem hselected)
                ?_
              intro index item hitem hselected left found hmove
              cases hmove with
              | only hother htest =>
                  obtain rfl := Option.some.inj (hitem.symm.trans hother)
                  rw [Option.elim_some, htest] at hselected
                  cases hselected
              | through hsegment => cases hsegment
          | map | keys | named =>
              obtain ⟨found, hfound, rfl⟩ := Option.map_eq_some_iff.mp hwalk
              refine descends_items hopen hfound (fun _ _ hitem _ => .through rfl hitem) ?_
              intro index item hitem hselected
              cases hselected
      | object marks members =>
          cases segment with
          | items | only =>
              obtain rfl := Option.some.inj hwalk
              refine Or.inr (descends_stays hopen (by simp) ?_)
              intro step left found hmove
              cases hmove
          | map =>
              obtain ⟨found, hfound, rfl⟩ := Option.map_eq_some_iff.mp hwalk
              refine Or.inr (descends_members hopen (by simp) hfound
                (fun _ _ hvalue _ => .value hvalue) ?_)
              intro key hselected
              cases hselected
          | keys =>
              obtain rfl := Option.some.inj hwalk
              exact Or.inl ⟨rest, marks, members, rfl, rfl, rfl⟩
          | named name =>
              refine Or.inr ?_
              rw [walk] at hwalk
              split_ifs at hwalk with hname
              · obtain ⟨found, hfound, rfl⟩ := Option.map_eq_some_iff.mp hwalk
                refine descends_members hopen (by simp) hfound ?_ ?_
                · intro key value hvalue hselected
                  obtain rfl := of_decide_eq_true hselected
                  exact .named hvalue
                · intro key hselected left found hmove
                  cases hmove
                  simp at hselected
              · obtain rfl := Option.some.inj hwalk
                refine descends_stays hopen (by simp) ?_
                intro step left found hmove
                cases hmove with
                | named hvalue => exact hname (Option.isSome_iff_exists.mpr ⟨_, hvalue⟩)

/-! ## What a path leaves -/

theorem Ends.move {segments left : List Segment} {value next : Value} {step : Step}
    {position : Position} (hmove : Moves test segments value step left next)
    (hends : Ends test left next position) : Ends test segments value (step :: position) := by
  rcases hends with ⟨found, hreach⟩ | ⟨rest, marks, members, hreach⟩
  · exact Or.inl ⟨found, .move hmove hreach⟩
  · exact Or.inr ⟨rest, marks, members, .move hmove hreach⟩

/-- A list a predicate selects from. -/
def Selects (test : Predicate → Value → Option Bool) (segments : List Segment) (body : Value)
    (predicate : Predicate) (items : List Value) : Prop :=
  ∃ position rest, Reaches test segments body position (.only predicate :: rest) (.array items)

theorem Selects.move {segments left : List Segment} {value next : Value} {step : Step}
    {predicate : Predicate} {items : List Value}
    (hmove : Moves test segments value step left next)
    (hselects : Selects test left next predicate items) :
    Selects test segments value predicate items := by
  obtain ⟨position, rest, hreach⟩ := hselects
  exact ⟨step :: position, rest, .move hmove hreach⟩

end Walk

/-! ## Converting a type to a text -/

end Connecta.ReviewedPaths
