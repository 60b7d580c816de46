import Connecta.Inputs.Continuations
import Connecta.Results.NumberTexts

/-!
# Values a program parses

`JSON.parse` keeps the last member under a key, at the place of the first, and
the array indices among the keys come first.  `JSON.stringify` writes a value
that holds no infinity and no negative zero so that it parses to itself.
-/

namespace Connecta.Results

open Connecta.Runtime
open Connecta.Inputs (arrayIndex)

/-- A parsed value; the members of an object are in the order of `Object.keys`. -/
inductive ParsedValue where
  | null
  | bool (value : Bool)
  | number (value : JsNumber)
  | string (text : JsString)
  | array (elements : List ParsedValue)
  | object (members : List (JsString × ParsedValue))

namespace ParsedValue

/-- The member under a key. -/
def get (members : List (JsString × ParsedValue)) (key : JsString) : Option ParsedValue :=
  (members.find? fun member => member.1 = key).map Prod.snd

/-- Whether a new key is put in front of one that is there. -/
def precedes (key other : JsString) : Bool :=
  match arrayIndex key, arrayIndex other with
  | some index, some otherIndex => index < otherIndex
  | some _, none => true
  | none, _ => false

/-- A property defined: a key that is there keeps its place. -/
def define : List (JsString × ParsedValue) → JsString → ParsedValue →
    List (JsString × ParsedValue)
  | [], key, value => [(key, value)]
  | member :: rest, key, value =>
      if member.1 = key then (key, value) :: rest
      else if precedes key member.1 then (key, value) :: member :: rest
      else member :: define rest key value

mutual

def ofJson : Json → ParsedValue
  | .null => .null
  | .bool value => .bool value
  | .number lexeme => .number (toNumber lexeme)
  | .string text => .string text
  | .array elements => .array (ofElements elements)
  | .object members => .object (ofMembers [] members)

def ofElements : List Json → List ParsedValue
  | [] => []
  | first :: rest => ofJson first :: ofElements rest

/-- The members of a text, defined one after another. -/
def ofMembers (defined : List (JsString × ParsedValue)) :
    List (JsString × Json) → List (JsString × ParsedValue)
  | [] => defined
  | first :: rest => ofMembers (define defined first.1 (ofJson first.2)) rest

end

/-- A number that is not finite has no text in JSON. -/
def jsonNumber (value : JsNumber) : Json :=
  match value with
  | .finite _ _ => .number (numberText value.number)
  | .nan | .infinite _ => .null

mutual

def toJson : ParsedValue → Json
  | .null => .null
  | .bool value => .bool value
  | .number value => jsonNumber value
  | .string text => .string text
  | .array elements => .array (toElements elements)
  | .object members => .object (toMembers members)

def toElements : List ParsedValue → List Json
  | [] => []
  | first :: rest => toJson first :: toElements rest

def toMembers : List (JsString × ParsedValue) → List (JsString × Json)
  | [] => []
  | first :: rest => (first.1, toJson first.2) :: toMembers rest

end

/-- `JSON.parse(text)`; absent where it throws. -/
def parse (text : JsString) : Option ParsedValue := (Json.parse text).map ofJson

/-- `JSON.stringify(value)` -/
def stringify (value : ParsedValue) : JsString := (toJson value).stringify

/-! ## Keys in order -/

/-- Each key once, and no index behind a key that it precedes. -/
def Ordered (members : List (JsString × ParsedValue)) : Prop :=
  members.Pairwise fun left right => left.1 ≠ right.1 ∧ precedes right.1 left.1 = false

section

variable {members : List (JsString × ParsedValue)} {key : JsString} {value : ParsedValue}

/-- A key that nothing precedes it with goes to the end. -/
theorem define_append (hkey : ∀ member ∈ members,
    member.1 ≠ key ∧ precedes key member.1 = false) :
    define members key value = members ++ [(key, value)] := by
  induction members with
  | nil => rfl
  | cons first rest ih =>
      obtain ⟨hne, hbefore⟩ := hkey first List.mem_cons_self
      rw [define, if_neg hne, hbefore, if_neg Bool.false_ne_true,
        ih fun member hmem => hkey member (List.mem_cons_of_mem _ hmem)]
      rfl

end

/-! ## What a text says -/

theorem ofElements_eq (elements : List Json) : ofElements elements = elements.map ofJson := by
  induction elements with
  | nil => rfl
  | cons first rest ih => rw [ofElements, ih, List.map_cons]

theorem toElements_eq (elements : List ParsedValue) :
    toElements elements = elements.map toJson := by
  induction elements with
  | nil => rfl
  | cons first rest ih => rw [toElements, ih, List.map_cons]

theorem toMembers_eq (members : List (JsString × ParsedValue)) :
    toMembers members = members.map fun member => (member.1, toJson member.2) := by
  induction members with
  | nil => rfl
  | cons first rest ih => rw [toMembers, ih, List.map_cons]

/-- Members in order are defined as they stand. -/
theorem ofMembers_ordered {defined members : List (JsString × ParsedValue)}
    {written : List (JsString × Json)} (hordered : Ordered (defined ++ members))
    (hwritten : written = toMembers members)
    (hread : ∀ member ∈ members, ofJson (toJson member.2) = member.2) :
    ofMembers defined written = defined ++ members := by
  induction members generalizing defined written with
  | nil =>
      rw [hwritten, List.append_nil]
      rfl
  | cons first rest ih =>
      have hfirst : define defined first.1 first.2 = defined ++ [first] :=
        define_append fun member hmem =>
          (List.pairwise_append.mp hordered).2.2 member hmem first List.mem_cons_self
      have hsplit : defined ++ first :: rest = defined ++ [first] ++ rest := by
        rw [List.append_assoc]
        rfl
      rw [hwritten, toMembers, ofMembers, hread first List.mem_cons_self, hfirst, hsplit]
      rw [hsplit] at hordered
      exact ih hordered rfl fun member hmem => hread member (List.mem_cons_of_mem _ hmem)

/-! ## Values that JSON can spell -/

/-- A number that JSON spells: finite, and not the negative zero. -/
def Spellable : JsNumber → Prop
  | .finite negative magnitude => negative = true → magnitude.value ≠ 0
  | .nan | .infinite _ => False

/-- A value of spellable numbers, with its keys in order. -/
inductive Exact : ParsedValue → Prop where
  | null : Exact .null
  | bool (value : Bool) : Exact (.bool value)
  | number {value : JsNumber} (hvalue : Spellable value) : Exact (.number value)
  | string (text : JsString) : Exact (.string text)
  | array {elements : List ParsedValue} (helements : ∀ element ∈ elements, Exact element) :
      Exact (.array elements)
  | object {members : List (JsString × ParsedValue)} (hordered : Ordered members)
      (hmembers : ∀ member ∈ members, Exact member.2) : Exact (.object members)

theorem Exact.elements {elements : List ParsedValue} (hexact : Exact (.array elements)) :
    ∀ element ∈ elements, Exact element := by
  cases hexact with
  | array helements => exact helements

theorem Exact.ordered {members : List (JsString × ParsedValue)} (hexact : Exact (.object members)) :
    Ordered members := by
  cases hexact with
  | object hordered _ => exact hordered

theorem Exact.members {members : List (JsString × ParsedValue)} (hexact : Exact (.object members)) :
    ∀ member ∈ members, Exact member.2 := by
  cases hexact with
  | object _ hmembers => exact hmembers

/-- An exact value is what its JSON says. -/
theorem Exact.ofJson_toJson {value : ParsedValue} (hexact : Exact value) :
    ofJson (toJson value) = value ∧ Json.Valid (toJson value) := by
  induction hexact with
  | null => exact ⟨rfl, .null⟩
  | bool value => exact ⟨rfl, .bool value⟩
  | @number value hvalue =>
      cases value with
      | nan => exact hvalue.elim
      | infinite negative => exact hvalue.elim
      | finite negative magnitude =>
          obtain ⟨hread, hlexeme⟩ := toNumber_numberText hvalue
          rw [toJson, jsonNumber, ofJson, hread]
          exact ⟨rfl, .number hlexeme⟩
  | string text => exact ⟨rfl, .string text⟩
  | @array elements helements ih =>
      rw [toJson, toElements_eq, ofJson, ofElements_eq, List.map_map]
      refine ⟨?_, .array fun element hmem => ?_⟩
      · have hsame : elements.map (ofJson ∘ toJson) = elements.map id :=
          List.map_congr_left fun element hmem => (ih element hmem).1
        rw [hsame, List.map_id]
      · obtain ⟨source, hsource, rfl⟩ := List.mem_map.mp hmem
        exact (ih source hsource).2
  | @object members hordered hmembers ih =>
      rw [toJson, ofJson]
      refine ⟨?_, .object ?_ fun member hmem => ?_⟩
      · rw [@ofMembers_ordered [] members _ hordered rfl fun member hmem => (ih member hmem).1]
        rfl
      · rw [toMembers_eq, List.map_map]
        exact List.pairwise_map.mpr (hordered.imp fun hpair => hpair.1)
      · rw [toMembers_eq] at hmem
        obtain ⟨source, hsource, rfl⟩ := List.mem_map.mp hmem
        exact (ih source hsource).2

theorem parse_stringify {value : ParsedValue} (hexact : Exact value) :
    parse (stringify value) = some value := by
  obtain ⟨hread, hvalid⟩ := hexact.ofJson_toJson
  rw [parse, stringify, Json.parse_stringify hvalid, Option.map_some, hread]

end ParsedValue

end Connecta.Results
