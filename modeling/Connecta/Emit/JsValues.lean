import Connecta.Results.ParsedValues
import Connecta.Runtime.JsonBytes

/-!
# Values of the language

A value is a primitive or an object of a heap, where objects are shared, cyclic, of any
prototype, and read through accessors.  `JSON.stringify` reads one as a JSON value, unless
it meets a cycle or code of the value's own.
-/

namespace Connecta.Emit

open Connecta.Foundation
open Connecta.Runtime
open Connecta.Runtime.JsString (ofAscii)
open Connecta.Results (JsNumber)

/-- A value over a heap of some size. -/
inductive JsValue (size : ℕ) where
  | undefined
  | null
  | bool (value : Bool)
  | number (value : JsNumber)
  | string (text : JsString)
  | function
  | symbol
  | bigint
  | object (address : Fin size)

/-- The value of a property, or the accessor that answers for it. -/
inductive Slot (size : ℕ) where
  | data (value : JsValue size)
  | accessor

structure Property (size : ℕ) where
  slot : Slot size
  enumerable : Bool

/-- `Object.prototype`, `Array.prototype`, none, or another object. -/
inductive Prototype where
  | object
  | array
  | absent
  | other
  deriving DecidableEq

/-- An object: of an array its elements, absent where it has a hole; its other properties
in the order of its keys. -/
structure JsObject (size : ℕ) where
  elements : Option (List (Option (Slot size)))
  prototype : Prototype
  properties : OrderedMap JsString (Property size)

abbrev Heap (size : ℕ) := Fin size → JsObject size

variable {size : ℕ}

namespace JsObject

/-- `[Array.isArray(item) ? Array.prototype : Object.prototype, null]` holds the prototype. -/
def ordinary (object : JsObject size) : Bool :=
  object.prototype = .absent ||
    object.prototype = (if object.elements.isSome then .array else .object)

/-- An own `toJSON` that is an accessor or a function. -/
def hooked (object : JsObject size) : Bool :=
  match object.properties.get? (ofAscii "toJSON") with
  | some ⟨.accessor, _⟩ | some ⟨.data .function, _⟩ => true
  | _ => false

end JsObject

/-! ## `JSON.stringify` -/

/-- What `JSON.stringify` makes of a value: a text, `undefined` or an exception; `guest`
where code of the value's own answers. -/
inductive Serialized where
  | text (json : Json)
  | absent
  | thrown
  | guest

/-- The texts of elements, one after another; what has none is `null`. -/
def serializeElements (serialize : JsValue size → Serialized) :
    List (Option (Slot size)) → Except Serialized (List Json)
  | [] => .ok []
  | slot :: rest =>
      match slot with
      | some .accessor => .error .guest
      | none => (serializeElements serialize rest).map (.null :: ·)
      | some (.data value) =>
          match serialize value with
          | .text json => (serializeElements serialize rest).map (json :: ·)
          | .absent => (serializeElements serialize rest).map (.null :: ·)
          | .thrown => .error .thrown
          | .guest => .error .guest

/-- The texts of enumerable members; what has none is left out. -/
def serializeMembers (serialize : JsValue size → Serialized) :
    List (JsString × Property size) → Except Serialized (List (JsString × Json))
  | [] => .ok []
  | (key, property) :: rest =>
      if property.enumerable then
        match property.slot with
        | .accessor => .error .guest
        | .data value =>
            match serialize value with
            | .text json => (serializeMembers serialize rest).map ((key, json) :: ·)
            | .absent => serializeMembers serialize rest
            | .thrown => .error .thrown
            | .guest => .error .guest
      else serializeMembers serialize rest

def Serialized.ofExcept : Except Serialized Json → Serialized
  | .ok json => .text json
  | .error stopped => stopped

/-- `SerializeJSONProperty`, inside the objects of a stack; no stack is longer than the heap
is large. -/
def serialize (heap : Heap size) : ℕ → Finset (Fin size) → JsValue size → Serialized
  | 0, _, _ => .thrown
  | levels + 1, stack, value =>
      match value with
      | .undefined | .function | .symbol => .absent
      | .bigint => .thrown
      | .null => .text .null
      | .bool value => .text (.bool value)
      | .number value => .text (Results.ParsedValue.jsonNumber value)
      | .string text => .text (.string text)
      | .object address =>
          let object := heap address
          if !object.ordinary || object.hooked then .guest
          else if address ∈ stack then .thrown
          else match object.elements with
          | some slots => .ofExcept <| Except.map .array <|
              serializeElements (serialize heap levels (insert address stack)) slots
          | none => .ofExcept <| Except.map .object <|
              serializeMembers (serialize heap levels (insert address stack))
                object.properties.entries

/-- `JSON.stringify(value)` -/
def jsonStringify (heap : Heap size) (value : JsValue size) : Serialized :=
  serialize heap (size + 2) ∅ value

/-! ## Faults -/

/-- What an element is read as: `descriptor?.value ?? null`; absent of an accessor. -/
def elementItem : Option (Slot size) → Option (JsValue size)
  | none | some (.data .undefined) => some .null
  | some (.data value) => some value
  | some .accessor => none

/-- The member an enumerable property is read as; a member that is `undefined` is none. -/
inductive Member : Property size → JsValue size → Prop where
  | intro {value : JsValue size} : value ≠ .undefined → Member ⟨.data value, true⟩ value

/-- A value that is no JSON, an object inside itself, one with a hook or of another kind, or
one that is read through an accessor. -/
def Fault (heap : Heap size) (active : Finset (Fin size)) : JsValue size → Prop
  | .undefined | .function | .symbol | .bigint => True
  | .null | .bool _ | .number _ | .string _ => False
  | .object address =>
      address ∈ active ∨ (heap address).ordinary = false ∨ (heap address).hooked = true ∨
        match (heap address).elements with
        | some slots => some .accessor ∈ slots
        | none => ∃ entry ∈ (heap address).properties.entries, entry.2 = ⟨.accessor, true⟩

/-- Some part of a value, at any depth, is at fault. -/
inductive Faulty (heap : Heap size) : Finset (Fin size) → JsValue size → Prop where
  | here {active : Finset (Fin size)} {value : JsValue size} :
      Fault heap active value → Faulty heap active value
  | element {active : Finset (Fin size)} {address : Fin size}
      {slots : List (Option (Slot size))} {slot : Option (Slot size)} {item : JsValue size} :
      (heap address).elements = some slots → slot ∈ slots → elementItem slot = some item →
      Faulty heap (insert address active) item → Faulty heap active (.object address)
  | member {active : Finset (Fin size)} {address : Fin size}
      {entry : JsString × Property size} {item : JsValue size} :
      (heap address).elements = none → entry ∈ (heap address).properties.entries →
      Member entry.2 item → Faulty heap (insert address active) item →
      Faulty heap active (.object address)

/-! ## Plain values -/

def plainElements (plain : JsValue size → Option Json) :
    List (Option (Slot size)) → Option (List Json)
  | [] => some []
  | slot :: rest => do
      let item ← elementItem slot
      let json ← plain item
      let others ← plainElements plain rest
      return json :: others

def plainMembers (plain : JsValue size → Option Json) :
    List (JsString × Property size) → Option (List (JsString × Json))
  | [] => some []
  | (key, property) :: rest =>
      match property with
      | ⟨_, false⟩ | ⟨.data .undefined, true⟩ => plainMembers plain rest
      | ⟨.accessor, true⟩ => none
      | ⟨.data value, true⟩ => do
          let json ← plain value
          let others ← plainMembers plain rest
          return (key, json) :: others

/-- The JSON value of a value without a fault that is nested less deep than some levels. -/
def plain (heap : Heap size) : ℕ → Finset (Fin size) → JsValue size → Option Json
  | 0, _, _ => none
  | levels + 1, active, value =>
      match value with
      | .undefined | .function | .symbol | .bigint => none
      | .null => some .null
      | .bool value => some (.bool value)
      | .number value => some (Results.ParsedValue.jsonNumber value)
      | .string text => some (.string text)
      | .object address =>
          if address ∈ active ∨ (heap address).ordinary = false ∨ (heap address).hooked = true then
            none
          else match (heap address).elements with
          | some slots => (plainElements (plain heap levels (insert address active)) slots).map
              .array
          | none => (plainMembers (plain heap levels (insert address active))
              (heap address).properties.entries).map .object

theorem serializeElements_plain {read : JsValue size → Option Json}
    {serialize : JsValue size → Serialized}
    (hread : ∀ value json, read value = some json → serialize value = .text json)
    (hnull : ∀ json, read .null = some json → json = .null)
    (habsent : serialize .undefined = .absent) {slots : List (Option (Slot size))}
    {jsons : List Json} (hplain : plainElements read slots = some jsons) :
    serializeElements serialize slots = .ok jsons := by
  induction slots generalizing jsons with
  | nil => exact congrArg Except.ok (Option.some.inj hplain)
  | cons slot rest ih =>
      obtain ⟨item, hitem, hplain⟩ := Option.bind_eq_some_iff.mp hplain
      obtain ⟨json, hjson, hplain⟩ := Option.bind_eq_some_iff.mp hplain
      obtain ⟨others, hothers, hplain⟩ := Option.bind_eq_some_iff.mp hplain
      obtain rfl := Option.some.inj hplain
      cases slot with
      | none =>
          obtain rfl := Option.some.inj hitem
          obtain rfl := hnull json hjson
          rw [serializeElements, ih hothers]
          rfl
      | some slot =>
          cases slot with
          | accessor => exact absurd hitem nofun
          | data value =>
              rw [serializeElements]
              cases value with
              | undefined =>
                  obtain rfl := Option.some.inj hitem
                  obtain rfl := hnull json hjson
                  rw [habsent, ih hothers]
                  rfl
              | _ =>
                  obtain rfl := Option.some.inj hitem
                  rw [hread _ _ hjson, ih hothers]
                  rfl

theorem serializeMembers_plain {read : JsValue size → Option Json}
    {serialize : JsValue size → Serialized}
    (hread : ∀ value json, read value = some json → serialize value = .text json)
    (habsent : serialize .undefined = .absent) {entries : List (JsString × Property size)}
    {members : List (JsString × Json)} (hplain : plainMembers read entries = some members) :
    serializeMembers serialize entries = .ok members := by
  induction entries generalizing members with
  | nil => exact congrArg Except.ok (Option.some.inj hplain)
  | cons entry rest ih =>
      obtain ⟨key, slot, enumerable⟩ := entry
      cases enumerable with
      | false => exact ih hplain
      | true =>
          cases slot with
          | accessor => exact absurd hplain nofun
          | data value =>
              rw [serializeMembers, if_pos rfl]
              dsimp only
              cases value with
              | undefined =>
                  rw [habsent]
                  exact ih hplain
              | _ =>
                  obtain ⟨json, hjson, hplain⟩ := Option.bind_eq_some_iff.mp hplain
                  obtain ⟨others, hothers, hplain⟩ := Option.bind_eq_some_iff.mp hplain
                  obtain rfl := Option.some.inj hplain
                  rw [hread _ _ hjson, ih hothers]
                  rfl

section Plain

variable {heap : Heap size} {levels : ℕ} {active : Finset (Fin size)} {value : JsValue size}
  {json : Json}

theorem plain_null (hplain : plain heap levels active .null = some json) : json = .null := by
  cases levels with
  | zero => exact absurd hplain nofun
  | succ levels => exact (Option.some.inj hplain).symm

/-- An object without a fault of its own is read as its elements or its members are. -/
theorem plain_object {address : Fin size}
    (hplain : plain heap (levels + 1) active (.object address) = some json) :
    (address ∉ active ∧ (heap address).ordinary = true ∧ (heap address).hooked = false) ∧
      ((∃ slots jsons, (heap address).elements = some slots ∧ json = .array jsons ∧
        plainElements (plain heap levels (insert address active)) slots = some jsons) ∨
      (∃ members, (heap address).elements = none ∧ json = .object members ∧
        plainMembers (plain heap levels (insert address active))
          (heap address).properties.entries = some members)) := by
  rw [plain] at hplain
  split_ifs at hplain with hfault
  rw [not_or, not_or, Bool.not_eq_false, Bool.not_eq_true] at hfault
  refine ⟨hfault, ?_⟩
  cases helements : (heap address).elements with
  | some slots =>
      rw [helements] at hplain
      obtain ⟨jsons, hjsons, rfl⟩ := Option.map_eq_some_iff.mp hplain
      exact Or.inl ⟨slots, jsons, rfl, rfl, hjsons⟩
  | none =>
      rw [helements] at hplain
      obtain ⟨members, hmembers, rfl⟩ := Option.map_eq_some_iff.mp hplain
      exact Or.inr ⟨members, rfl, rfl, hmembers⟩

theorem serialize_of_plain (hplain : plain heap levels active value = some json) :
    serialize heap (levels + 1) active value = .text json := by
  induction levels generalizing active value json with
  | zero => exact absurd hplain nofun
  | succ levels ih =>
      cases value with
      | undefined | function | symbol | bigint => exact absurd hplain nofun
      | null | bool | number | string =>
          exact congrArg Serialized.text (Option.some.inj hplain)
      | object address =>
          obtain ⟨⟨hactive, hordinary, hhooked⟩, hread⟩ := plain_object hplain
          rw [serialize]
          simp only [hordinary, hhooked, Bool.not_true, Bool.or_self, if_neg hactive]
          rw [if_neg Bool.false_ne_true]
          rcases hread with ⟨slots, jsons, helements, rfl, hjsons⟩ |
            ⟨members, helements, rfl, hmembers⟩
          · rw [helements]
            dsimp only
            have hchild (value : JsValue size) (json : Json) :
                plain heap levels (insert address active) value = some json →
                  serialize heap (levels + 1) (insert address active) value = .text json := ih
            rw [serializeElements_plain hchild (fun _ => plain_null) rfl hjsons]
            rfl
          · rw [helements]
            dsimp only
            rw [serializeMembers_plain (fun _ _ hchild => ih hchild) rfl hmembers]
            rfl

end Plain

/-! ## What is not plain is faulty -/

theorem plainElements_of {read : JsValue size → Option Json} {slots : List (Option (Slot size))}
    (hread : ∀ slot ∈ slots, ∃ item json, elementItem slot = some item ∧ read item = some json) :
    ∃ jsons, plainElements read slots = some jsons := by
  induction slots with
  | nil => exact ⟨[], rfl⟩
  | cons slot rest ih =>
      rw [List.forall_mem_cons] at hread
      obtain ⟨⟨item, json, hitem, hjson⟩, hrest⟩ := hread
      obtain ⟨others, hothers⟩ := ih hrest
      refine ⟨json :: others, ?_⟩
      rw [plainElements, hitem]
      simp only [Option.bind_eq_bind, Option.bind_some, hjson, hothers]
      rfl

theorem plainMembers_of {read : JsValue size → Option Json}
    {entries : List (JsString × Property size)}
    (haccessor : ∀ entry ∈ entries, entry.2 ≠ ⟨.accessor, true⟩)
    (hread : ∀ entry ∈ entries, ∀ item, Member entry.2 item → ∃ json, read item = some json) :
    ∃ members, plainMembers read entries = some members := by
  induction entries with
  | nil => exact ⟨[], rfl⟩
  | cons entry rest ih =>
      rw [List.forall_mem_cons] at haccessor hread
      obtain ⟨others, hothers⟩ := ih haccessor.2 hread.2
      obtain ⟨key, slot, enumerable⟩ := entry
      cases enumerable with
      | false => exact ⟨others, hothers⟩
      | true =>
          cases slot with
          | accessor => exact absurd rfl haccessor.1
          | data value =>
              cases value with
              | undefined => exact ⟨others, hothers⟩
              | _ =>
                  obtain ⟨json, hjson⟩ := hread.1 _ (.intro nofun)
                  refine ⟨(key, json) :: others, ?_⟩
                  rw [plainMembers]
                  · simp only [Option.bind_eq_bind, Option.bind_some, hjson, hothers]
                    rfl
                  · exact nofun

theorem elements_of_plain {read : JsValue size → Option Json} {slots : List (Option (Slot size))}
    {jsons : List Json} (hplain : plainElements read slots = some jsons) :
    ∀ slot ∈ slots, ∃ item json, elementItem slot = some item ∧ read item = some json := by
  induction slots generalizing jsons with
  | nil => exact nofun
  | cons slot rest ih =>
      obtain ⟨item, hitem, hplain⟩ := Option.bind_eq_some_iff.mp hplain
      obtain ⟨json, hjson, hplain⟩ := Option.bind_eq_some_iff.mp hplain
      obtain ⟨others, hothers, -⟩ := Option.bind_eq_some_iff.mp hplain
      rw [List.forall_mem_cons]
      exact ⟨⟨item, json, hitem, hjson⟩, ih hothers⟩

theorem members_of_plain {read : JsValue size → Option Json}
    {entries : List (JsString × Property size)} {members : List (JsString × Json)}
    (hplain : plainMembers read entries = some members) :
    (∀ entry ∈ entries, entry.2 ≠ ⟨.accessor, true⟩) ∧
      ∀ entry ∈ entries, ∀ item, Member entry.2 item → ∃ json, read item = some json := by
  induction entries generalizing members with
  | nil => exact ⟨nofun, nofun⟩
  | cons entry rest ih =>
      rw [List.forall_mem_cons, List.forall_mem_cons]
      obtain ⟨key, slot, enumerable⟩ := entry
      cases enumerable with
      | false =>
          obtain ⟨haccessor, hread⟩ := ih hplain
          exact ⟨⟨nofun, haccessor⟩, nofun, hread⟩
      | true =>
          cases slot with
          | accessor => exact absurd hplain nofun
          | data value =>
              cases value with
              | undefined =>
                  obtain ⟨haccessor, hread⟩ := ih hplain
                  refine ⟨⟨nofun, haccessor⟩, ?_, hread⟩
                  rintro item ⟨hdefined⟩
                  exact absurd rfl hdefined
              | _ =>
                  obtain ⟨json, hjson, hplain⟩ := Option.bind_eq_some_iff.mp hplain
                  obtain ⟨others, hothers, -⟩ := Option.bind_eq_some_iff.mp hplain
                  obtain ⟨haccessor, hread⟩ := ih hothers
                  refine ⟨⟨nofun, haccessor⟩, ?_, hread⟩
                  rintro item ⟨-⟩
                  exact ⟨json, hjson⟩

section Faults

variable {heap : Heap size} {active : Finset (Fin size)} {value : JsValue size}

/-- With a level for every object that is not active, what is not read is faulty. -/
theorem plain_or_faulty {levels : ℕ} (hlevels : size < levels + active.card) :
    (∃ json, plain heap levels active value = some json) ∨ Faulty heap active value := by
  induction levels generalizing active value with
  | zero =>
      have hcard := active.card_le_univ
      rw [Fintype.card_fin] at hcard
      omega
  | succ levels ih =>
      cases value with
      | undefined | function | symbol | bigint => exact Or.inr (.here trivial)
      | null | bool | number | string => exact Or.inl ⟨_, rfl⟩
      | object address =>
          by_cases hfault : Fault heap active (.object address)
          · exact Or.inr (.here hfault)
          rw [Fault, not_or, not_or, not_or, Bool.not_eq_false, Bool.not_eq_true] at hfault
          obtain ⟨hactive, hordinary, hhooked, haccessor⟩ := hfault
          have hcard : size < levels + (insert address active).card := by
            rw [Finset.card_insert_of_notMem hactive]
            omega
          have hsound : ¬ (address ∈ active ∨ (heap address).ordinary = false ∨
              (heap address).hooked = true) := by
            simp [hactive, hordinary, hhooked]
          rw [plain, if_neg hsound]
          cases helements : (heap address).elements with
          | some slots =>
              rw [helements] at haccessor
              dsimp only at haccessor ⊢
              by_cases hall : ∀ slot ∈ slots, ∃ item json, elementItem slot = some item ∧
                  plain heap levels (insert address active) item = some json
              · obtain ⟨jsons, hjsons⟩ := plainElements_of hall
                rw [hjsons]
                exact Or.inl ⟨_, rfl⟩
              · push Not at hall
                obtain ⟨slot, hslot, hunread⟩ := hall
                obtain ⟨item, hitem⟩ : ∃ item, elementItem slot = some item := by
                  rcases slot with _ | value | _
                  · exact ⟨_, rfl⟩
                  · cases value <;> exact ⟨_, rfl⟩
                  · exact absurd hslot haccessor
                rcases ih hcard with ⟨json, hjson⟩ | hfaulty
                · exact absurd hjson (hunread item json hitem)
                · exact Or.inr (.element helements hslot hitem hfaulty)
          | none =>
              rw [helements] at haccessor
              dsimp only at haccessor ⊢
              push Not at haccessor
              by_cases hall : ∀ entry ∈ (heap address).properties.entries, ∀ item,
                  Member entry.2 item →
                    ∃ json, plain heap levels (insert address active) item = some json
              · obtain ⟨members, hmembers⟩ := plainMembers_of haccessor hall
                rw [hmembers]
                exact Or.inl ⟨_, rfl⟩
              · push Not at hall
                obtain ⟨entry, hentry, item, hitem, hunread⟩ := hall
                rcases ih hcard with ⟨json, hjson⟩ | hfaulty
                · exact absurd hjson (hunread json)
                · exact Or.inr (.member helements hentry hitem hfaulty)

theorem plain_of_faulty (hfaulty : Faulty heap active value) (levels : ℕ) :
    plain heap levels active value = none := by
  induction hfaulty generalizing levels with
  | @here active value hfault =>
      cases levels with
      | zero => rfl
      | succ levels =>
          cases value with
          | undefined | function | symbol | bigint => rfl
          | null | bool | number | string => exact hfault.elim
          | object address =>
              rw [Option.eq_none_iff_forall_ne_some]
              intro json hplain
              obtain ⟨⟨hactive, hordinary, hhooked⟩, hread⟩ := plain_object hplain
              rcases hfault with hcycle | hother | hhook | haccessor
              · exact hactive hcycle
              · exact absurd (hordinary.symm.trans hother) nofun
              · exact absurd (hhooked.symm.trans hhook) nofun
              · rcases hread with ⟨slots, jsons, helements, -, hjsons⟩ |
                  ⟨members, helements, -, hmembers⟩
                · rw [helements] at haccessor
                  obtain ⟨item, _, hitem, -⟩ := elements_of_plain hjsons _ haccessor
                  exact absurd hitem nofun
                · rw [helements] at haccessor
                  obtain ⟨entry, hentry, hslot⟩ := haccessor
                  exact (members_of_plain hmembers).1 entry hentry hslot
  | element helements hslot hitem _ ih =>
      cases levels with
      | zero => rfl
      | succ levels =>
          rw [Option.eq_none_iff_forall_ne_some]
          intro json hplain
          obtain ⟨-, ⟨slots, jsons, hread, -, hjsons⟩ | ⟨_, hread, -⟩⟩ := plain_object hplain
          · obtain rfl := Option.some.inj (hread.symm.trans helements)
            obtain ⟨item, json, hsame, hjson⟩ := elements_of_plain hjsons _ hslot
            obtain rfl := Option.some.inj (hsame.symm.trans hitem)
            rw [ih levels] at hjson
            exact absurd hjson nofun
          · exact absurd (hread.symm.trans helements) nofun
  | member helements hentry hitem _ ih =>
      cases levels with
      | zero => rfl
      | succ levels =>
          rw [Option.eq_none_iff_forall_ne_some]
          intro json hplain
          obtain ⟨-, ⟨slots, _, hread, -⟩ | ⟨members, -, -, hmembers⟩⟩ := plain_object hplain
          · exact absurd (hread.symm.trans helements) nofun
          · obtain ⟨json, hjson⟩ := (members_of_plain hmembers).2 _ hentry _ hitem
            rw [ih levels] at hjson
            exact absurd hjson nofun

end Faults

end Connecta.Emit
