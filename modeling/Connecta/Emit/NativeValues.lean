import Connecta.Emit.JsValues
import Connecta.Emit.NativeStrings

/-!
# Measuring a native value

The JSON size of a value is counted by hand while it is walked, and copied, so that a value
too large, too deep or of too many parts is refused before its text is made.
-/

namespace Connecta.Emit

open Connecta.Foundation
open Connecta.Runtime
open Connecta.Runtime.JsString (ofAscii)

variable {size : ℕ}

/-- What the walk returns: the value it is at, or an object it has made. -/
inductive Copied (size : ℕ) where
  | item (value : JsValue size)
  | array (elements : List (Copied size))
  | object (members : List (JsString × Copied size))

structure Walk (size : ℕ) where
  bytes : ℕ
  nodes : ℕ
  active : Finset (Fin size)

/-- `PROGRAM_RESULT_INLINE_BYTES` -/
def PROGRAM_RESULT_INLINE_BYTES : ℕ := 1024 * 1024

/-- `Math.floor(Math.min(maxBytes, PROGRAM_RESULT_INLINE_BYTES) / 32)` -/
def maxNodes (maxBytes : ℕ) : ℕ := min maxBytes PROGRAM_RESULT_INLINE_BYTES / 32

section Measure

variable (maxBytes : ℕ)

def Walk.charge (walk : Walk size) (amount : ℕ) : Option (Walk size) :=
  (Emit.charge maxBytes amount walk.bytes).map fun bytes => { walk with bytes }

def Walk.chargeString (walk : Walk size) (text : JsString) : Option (Walk size) :=
  (Emit.chargeString maxBytes text walk.bytes).map fun bytes => { walk with bytes }

/-- A charge for the comma before every part but the first. -/
def Walk.comma (walk : Walk size) (first : Bool) : Option (Walk size) :=
  if first then some walk else walk.charge maxBytes 1

def visitElements (visit : JsValue size → Walk size → Option (Copied size × Walk size)) :
    Bool → List (Option (Slot size)) → Walk size → Option (List (Copied size) × Walk size)
  | _, [], walk => some ([], walk)
  | first, slot :: rest, walk => do
      let walk ← walk.comma maxBytes first
      let item ← elementItem slot
      let (child, walk) ← visit item walk
      let (children, walk) ← visitElements visit false rest walk
      return (child :: children, walk)

def visitMembers (visit : JsValue size → Walk size → Option (Copied size × Walk size)) :
    Bool → List (JsString × Property size) → Walk size →
      Option (List (JsString × Copied size) × Walk size)
  | _, [], walk => some ([], walk)
  | first, (key, property) :: rest, walk =>
      match property with
      | ⟨_, false⟩ | ⟨.data .undefined, true⟩ => visitMembers visit first rest walk
      | ⟨.accessor, true⟩ => none
      | ⟨.data value, true⟩ => do
          let walk ← walk.comma maxBytes first
          let walk ← walk.chargeString maxBytes key
          let walk ← walk.charge maxBytes 1
          let (child, walk) ← visit value walk
          let (members, walk) ← visitMembers visit false rest walk
          return ((key, child) :: members, walk)

/-- `visit(item, depth)`, where the levels and the depth are `65` together: it refuses at a
depth over `64`. -/
def visit (heap : Heap size) (copy : Bool) :
    ℕ → JsValue size → Walk size → Option (Copied size × Walk size)
  | 0, _, _ => none
  | levels + 1, item, walk =>
      if maxNodes maxBytes < walk.nodes + 1 then none
      else
        let walk := { walk with nodes := walk.nodes + 1 }
        match item with
        | .undefined | .function | .symbol | .bigint => none
        | .string text => (walk.chargeString maxBytes text).map fun walk => (.item item, walk)
        | .null => (walk.charge maxBytes (ofAscii "null").length).map fun walk => (.item item, walk)
        | .bool value =>
            (walk.charge maxBytes (Json.stringify (.bool value)).length).map fun walk =>
              (.item item, walk)
        | .number value =>
            let text := Json.stringify (Results.ParsedValue.jsonNumber value)
            (walk.charge maxBytes text.length).map fun walk => (.item item, walk)
        | .object address =>
            let object := heap address
            if address ∈ walk.active ∨ object.ordinary = false ∨ object.hooked = true then none
            else do
              let walk := { walk with active := insert address walk.active }
              let walk ← walk.charge maxBytes 2
              match object.elements with
              | some slots =>
                  if maxNodes maxBytes - walk.nodes < slots.length then none
                  else do
                    let (elements, walk) ←
                      visitElements maxBytes (visit heap copy levels) true slots walk
                    return (if copy then .array elements else .item .undefined,
                      { walk with active := walk.active.erase address })
              | none => do
                  let (members, walk) ← visitMembers maxBytes (visit heap copy levels) true
                    object.properties.entries walk
                  return (if copy then .object members else .item .undefined,
                    { walk with active := walk.active.erase address })

/-- `boundedNativeValue(value, maxBytes, copy)`, absent where it throws. -/
def boundedNativeValue (heap : Heap size) (value : JsValue size) (copy : Bool) :
    Option (Copied size × ℕ) :=
  (visit maxBytes heap copy 65 value ⟨0, 0, ∅⟩).map fun (value, walk) => (value, walk.bytes)

end Measure

/-! ## Nodes and depth -/

mutual

/-- How many values a JSON value has, itself and those in it. -/
def nodes : Json → ℕ
  | .array elements => 1 + elementNodes elements
  | .object members => 1 + memberNodes members
  | _ => 1

def elementNodes : List Json → ℕ
  | [] => 0
  | element :: rest => nodes element + elementNodes rest

def memberNodes : List (JsString × Json) → ℕ
  | [] => 0
  | (_, value) :: rest => nodes value + memberNodes rest

end

mutual

/-- In how many arrays and objects the deepest value is. -/
def depth : Json → ℕ
  | .array elements => elementDepth elements
  | .object members => memberDepth members
  | _ => 0

def elementDepth : List Json → ℕ
  | [] => 0
  | element :: rest => max (depth element + 1) (elementDepth rest)

def memberDepth : List (JsString × Json) → ℕ
  | [] => 0
  | (_, value) :: rest => max (depth value + 1) (memberDepth rest)

end

theorem nodes_pos (json : Json) : 0 < nodes json := by
  cases json <;> simp [nodes]

theorem length_le_elementNodes (jsons : List Json) : jsons.length ≤ elementNodes jsons := by
  induction jsons with
  | nil => exact le_rfl
  | cons json rest ih =>
      have hjson := nodes_pos json
      rw [elementNodes, List.length_cons]
      omega

/-- The bytes of elements with their commas; the first has none before it. -/
def elementBytes (first : Bool) : List Json → ℕ
  | [] => 0
  | json :: rest => (if first then 0 else 1) + json.bytes + elementBytes false rest

def memberBytes (first : Bool) : List (JsString × Json) → ℕ
  | [] => 0
  | (key, json) :: rest => (if first then 0 else 1) + JsString.bytes (Json.quote key) + 1 +
      json.bytes + memberBytes false rest

theorem bytes_array (jsons : List Json) :
    Json.bytes (.array jsons) = 2 + elementBytes true jsons := by
  have hrest (rest : List Json) : elementBytes false rest =
      (rest.map fun json => json.bytes + 1).sum := by
    induction rest with
    | nil => rfl
    | cons json rest ih =>
        rw [elementBytes, ih, List.map_cons, List.sum_cons, if_neg Bool.false_ne_true]
        omega
  rw [Json.bytes_array]
  cases jsons with
  | nil => rfl
  | cons json rest =>
      rw [elementBytes, hrest, if_neg (List.cons_ne_nil _ _), List.map_cons, List.sum_cons,
        if_pos rfl]
      omega

theorem bytes_object (members : List (JsString × Json)) :
    Json.bytes (.object members) = 2 + memberBytes true members := by
  have hrest (rest : List (JsString × Json)) : memberBytes false rest =
      (rest.map fun member => JsString.bytes (Json.quote member.1) + member.2.bytes + 2).sum := by
    induction rest with
    | nil => rfl
    | cons member rest ih =>
        rw [memberBytes, ih, List.map_cons, List.sum_cons, if_neg Bool.false_ne_true]
        omega
  rw [Json.bytes_object]
  cases members with
  | nil => rfl
  | cons member rest =>
      rw [memberBytes, hrest, if_neg (List.cons_ne_nil _ _), List.map_cons, List.sum_cons,
        if_pos rfl]
      omega

/-! ## Copies -/

mutual

/-- The JSON value of what is returned; absent where an object of the input is in it. -/
def Copied.json : Copied size → Option Json
  | .item .null => some .null
  | .item (.bool value) => some (.bool value)
  | .item (.number value) => some (Results.ParsedValue.jsonNumber value)
  | .item (.string text) => some (.string text)
  | .item _ => none
  | .array elements => (Copied.elementsJson elements).map .array
  | .object members => (Copied.membersJson members).map .object

def Copied.elementsJson : List (Copied size) → Option (List Json)
  | [] => some []
  | first :: rest => do
      let json ← first.json
      let others ← Copied.elementsJson rest
      return json :: others

def Copied.membersJson : List (JsString × Copied size) → Option (List (JsString × Json))
  | [] => some []
  | (key, first) :: rest => do
      let json ← first.json
      let others ← Copied.membersJson rest
      return (key, json) :: others

end

mutual

/-- The objects of the input that what is returned holds. -/
def Copied.shared : Copied size → List (Fin size)
  | .item (.object address) => [address]
  | .item _ => []
  | .array elements => Copied.elementsShared elements
  | .object members => Copied.membersShared members

def Copied.elementsShared : List (Copied size) → List (Fin size)
  | [] => []
  | first :: rest => first.shared ++ Copied.elementsShared rest

def Copied.membersShared : List (JsString × Copied size) → List (Fin size)
  | [] => []
  | (_, first) :: rest => first.shared ++ Copied.membersShared rest

end

mutual

theorem Copied.shared_eq_nil (copied : Copied size) {json : Json}
    (hjson : copied.json = some json) : copied.shared = [] := by
  cases copied with
  | item value =>
      cases value with
      | object address => rw [Copied.json] at hjson <;> exact absurd hjson nofun
      | _ => rw [Copied.shared]; exact nofun
  | array elements =>
      rw [Copied.json] at hjson
      obtain ⟨jsons, hjsons, -⟩ := Option.map_eq_some_iff.mp hjson
      rw [Copied.shared]
      exact Copied.elementsShared_eq_nil elements hjsons
  | object members =>
      rw [Copied.json] at hjson
      obtain ⟨jsons, hjsons, -⟩ := Option.map_eq_some_iff.mp hjson
      rw [Copied.shared]
      exact Copied.membersShared_eq_nil members hjsons

theorem Copied.elementsShared_eq_nil (elements : List (Copied size)) {jsons : List Json}
    (hjsons : Copied.elementsJson elements = some jsons) :
    Copied.elementsShared elements = [] := by
  cases elements with
  | nil => rfl
  | cons first rest =>
      obtain ⟨json, hjson, hjsons⟩ := Option.bind_eq_some_iff.mp hjsons
      obtain ⟨others, hothers, -⟩ := Option.bind_eq_some_iff.mp hjsons
      rw [Copied.elementsShared, Copied.shared_eq_nil first hjson,
        Copied.elementsShared_eq_nil rest hothers]
      rfl

theorem Copied.membersShared_eq_nil (members : List (JsString × Copied size))
    {jsons : List (JsString × Json)} (hjsons : Copied.membersJson members = some jsons) :
    Copied.membersShared members = [] := by
  cases members with
  | nil => rfl
  | cons first rest =>
      obtain ⟨key, first⟩ := first
      obtain ⟨json, hjson, hjsons⟩ := Option.bind_eq_some_iff.mp hjsons
      obtain ⟨others, hothers, -⟩ := Option.bind_eq_some_iff.mp hjsons
      rw [Copied.membersShared, Copied.shared_eq_nil first hjson,
        Copied.membersShared_eq_nil rest hothers]
      rfl

end

/-! ## What the walk answers -/

/-- A walk that has charged some bytes and visited some nodes. -/
def Walk.after (walk : Walk size) (bytes nodes : ℕ) : Walk size :=
  { walk with bytes := walk.bytes + bytes, nodes := walk.nodes + nodes }

section Walks

variable {maxBytes : ℕ}

/-- Some bytes and some nodes are left for. -/
def Fits (maxBytes : ℕ) (walk : Walk size) (bytes nodes : ℕ) : Prop :=
  walk.bytes + bytes ≤ maxBytes ∧ walk.nodes + nodes ≤ maxNodes maxBytes

/-- The answer about parts that take some bytes and some nodes: what is returned for them,
and the walk behind them, or a refusal where they do not fit. -/
def Charged {Part : Type} (maxBytes : ℕ) (walk : Walk size) (bytes nodes : ℕ) (good : Part → Prop)
    (result : Option (Part × Walk size)) : Prop :=
  (Fits maxBytes walk bytes nodes → ∃ part, result = some (part, walk.after bytes nodes) ∧
    good part) ∧ (¬ Fits maxBytes walk bytes nodes → result = none)

theorem Walk.charge_eq (walk : Walk size) (amount : ℕ) : walk.charge maxBytes amount =
    if walk.bytes + amount ≤ maxBytes then some (walk.after amount 0) else none := by
  rw [Walk.charge, Emit.charge_eq]
  split_ifs <;> rfl

theorem Walk.chargeString_eq {walk : Walk size} (hbytes : walk.bytes ≤ maxBytes)
    (text : JsString) : walk.chargeString maxBytes text =
      if walk.bytes + JsString.bytes (Json.quote text) ≤ maxBytes then
        some (walk.after (JsString.bytes (Json.quote text)) 0)
      else none := by
  rw [Walk.chargeString, Emit.chargeString_eq text hbytes]
  split_ifs <;> rfl

theorem Walk.comma_eq {walk : Walk size} (hbytes : walk.bytes ≤ maxBytes) (first : Bool) :
    walk.comma maxBytes first = if walk.bytes + (if first then 0 else 1) ≤ maxBytes then
      some (walk.after (if first then 0 else 1) 0) else none := by
  cases first with
  | true => exact (if_pos hbytes).symm
  | false => exact walk.charge_eq 1

theorem Walk.after_after (walk : Walk size) (bytes nodes bytes' nodes' : ℕ) :
    (walk.after bytes nodes).after bytes' nodes' =
      walk.after (bytes + bytes') (nodes + nodes') := by
  rw [Walk.after, Walk.after, Walk.after, Nat.add_assoc, Nat.add_assoc]

section Composition

variable {Part Rest : Type} {walk : Walk size} {bytes nodes bytes' nodes' : ℕ}
  {good : Part → Prop} {good' : Rest → Prop}

/-- A part and what follows it. -/
theorem Charged.bind {result : Option (Part × Walk size)}
    {next : Part × Walk size → Option (Rest × Walk size)}
    (hresult : Charged maxBytes walk bytes nodes good result)
    (hnext : ∀ part, Fits maxBytes walk bytes nodes → good part →
      Charged maxBytes (walk.after bytes nodes) bytes' nodes' good'
        (next (part, walk.after bytes nodes))) :
    Charged maxBytes walk (bytes + bytes') (nodes + nodes') good' (result.bind next) := by
  by_cases hfirst : Fits maxBytes walk bytes nodes
  · obtain ⟨part, rfl, hpart⟩ := hresult.1 hfirst
    obtain ⟨hfits, hrefused⟩ := hnext part hfirst hpart
    have hboth : Fits maxBytes walk (bytes + bytes') (nodes + nodes') ↔
        Fits maxBytes (walk.after bytes nodes) bytes' nodes' := by
      rw [Fits, Fits, Walk.after, ← Nat.add_assoc, ← Nat.add_assoc]
    rw [Charged, hboth, ← Walk.after_after]
    exact ⟨hfits, hrefused⟩
  · rw [hresult.2 hfirst, Option.bind_none]
    refine ⟨fun hfits => absurd ⟨?_, ?_⟩ hfirst, fun _ => rfl⟩
    · exact (Nat.add_le_add_left (Nat.le_add_right _ _) _).trans hfits.1
    · exact (Nat.add_le_add_left (Nat.le_add_right _ _) _).trans hfits.2

/-- A charge and what follows it. -/
theorem Charged.charge {amount : ℕ} {next : Walk size → Option (Rest × Walk size)}
    (hnodes : walk.nodes ≤ maxNodes maxBytes)
    (hnext : walk.bytes + amount ≤ maxBytes →
      Charged maxBytes (walk.after amount 0) bytes' nodes' good' (next (walk.after amount 0))) :
    Charged maxBytes walk (amount + bytes') nodes' good'
      ((if walk.bytes + amount ≤ maxBytes then some (walk.after amount 0) else none).bind
        next) := by
  have hcharged : Charged maxBytes walk amount 0 (fun _ : Unit => True)
      (if walk.bytes + amount ≤ maxBytes then some ((), walk.after amount 0) else none) :=
    ⟨fun hfits => ⟨(), if_pos hfits.1, trivial⟩, fun hfits => if_neg fun hbytes =>
      hfits ⟨hbytes, hnodes⟩⟩
  have hbind : Charged maxBytes walk (amount + bytes') (0 + nodes') good'
      (Option.bind (if walk.bytes + amount ≤ maxBytes then some ((), walk.after amount 0) else none)
        fun answer => next answer.2) :=
    hcharged.bind fun _ hfits _ => hnext hfits.1
  rw [Nat.zero_add] at hbind
  convert hbind using 1
  split_ifs <;> rfl

/-- What is returned about parts. -/
theorem Charged.map {result : Option (Part × Walk size)}
    (hresult : Charged maxBytes walk bytes nodes good result) {change : Part → Rest}
    (hchange : ∀ part, good part → good' (change part)) :
    Charged maxBytes walk bytes nodes good'
      (result.bind fun answer => some (change answer.1, answer.2)) := by
  refine ⟨fun hfits => ?_, fun hfits => ?_⟩
  · obtain ⟨part, rfl, hpart⟩ := hresult.1 hfits
    exact ⟨change part, rfl, hchange part hpart⟩
  · rw [hresult.2 hfits]
    rfl

end Composition

end Walks

end Connecta.Emit
