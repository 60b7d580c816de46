import Connecta.Foundation.OrderedMap
import Connecta.Runtime.Json

/-!
# Connector permissions

A pool lists what its callers may use: a bare connector id grants the whole
connector, an address one tool.  The list is normalized into the connectors it
names and, for those it grants by address only, their tools.
-/

namespace Connecta.Registry

open Connecta.Foundation
open Connecta.Runtime

/-- C0, DEL and C1. -/
def hasControlCharacters (name : JsString) : Bool :=
  name.any fun code => code ≤ 0x1F || (0x7F ≤ code && code ≤ 0x9F)

/-- `[a-z0-9_-]` -/
def idUnit (unit : CodeUnit) : Bool :=
  (0x61 ≤ unit && unit ≤ 0x7A) || (0x30 ≤ unit && unit ≤ 0x39) ||
    unit = ascii '_' || unit = ascii '-'

/-- `CONNECTOR_ID_RE` -/
def isConnectorId (address : JsString) : Bool :=
  address ≠ [] && address.all idUnit

/-- `TOOL_ADDRESS_RE`; its last part counts code points. -/
def isToolAddress (address : JsString) : Bool :=
  match address.dropWhile idUnit with
  | [] => false
  | dot :: tool =>
      address.takeWhile idUnit ≠ [] && dot = ascii '.' && tool ≠ [] &&
        (JsString.codePoints tool).length ≤ 256

/-- The address of a tool. -/
def addressOf (connectorId toolName : JsString) : JsString :=
  connectorId ++ ascii '.' :: toolName

/-- A `Set` of strings. -/
def addTo (set : List JsString) (member : JsString) : List JsString :=
  if member ∈ set then set else set ++ [member]

inductive ConnectorIds where
  | all
  | only (ids : List JsString)

/-- Connector id to the only tool names a view may see on it. -/
abbrev ToolAccess := OrderedMap JsString (List JsString)

structure ConnectorAccess where
  connectorIds : List JsString
  toolAccess : Option ToolAccess

def invalidPermission : JsString :=
  JsString.ofAscii "invalid connector permission"

/-- The two structures the loop of `parseConnectorAccess` fills. -/
structure Grants where
  whole : List JsString := []
  tools : ToolAccess := .empty

namespace Grants

/-- One tool of a connector. -/
def grantTool (grants : Grants) (connectorId toolName : JsString) : Grants :=
  { grants with
    tools := grants.tools.set connectorId
      (addTo ((grants.tools.get? connectorId).getD []) toolName) }

/-- One turn of the loop. -/
def grant (grants : Grants) : Json → Except JsString Grants
  | .string address =>
      if isConnectorId address then
        .ok { grants with whole := addTo grants.whole address }
      else if !isToolAddress address || hasControlCharacters address then
        .error invalidPermission
      else
        .ok (grants.grantTool (address.takeWhile (· ≠ ascii '.'))
          ((address.dropWhile (· ≠ ascii '.')).drop 1))
  | _ => .error invalidPermission

/-- A bare id beside addresses of the same connector is the whole connector. -/
def access (grants : Grants) : ConnectorAccess :=
  let tools := grants.whole.foldl OrderedMap.delete grants.tools
  { connectorIds := tools.keys.foldl addTo grants.whole
    toolAccess := if 0 < tools.size then some tools else none }

end Grants

def parseConnectorAccess : Json → Except JsString ConnectorAccess
  | .array addresses =>
      (addresses.foldlM Grants.grant {}).map Grants.access
  | _ => .error invalidPermission

/-! ## What a list means -/

/-- The list has this entry. -/
def Lists (value : Json) (address : JsString) : Prop :=
  ∃ addresses, value = .array addresses ∧ Json.string address ∈ addresses

/-- Some entry of the list names the connector. -/
def Names (value : Json) (connectorId : JsString) : Prop :=
  Lists value connectorId ∨
    ∃ toolName, Lists value (addressOf connectorId toolName)

/-- Some entry of the list grants the tool. -/
def GrantsTool (value : Json) (connectorId toolName : JsString) : Prop :=
  Lists value connectorId ∨ Lists value (addressOf connectorId toolName)

namespace ConnectorAccess

/-- The tools of a connector granted by address only. -/
def granted (access : ConnectorAccess) (connectorId : JsString) :
    Option (List JsString) :=
  access.toolAccess.bind (·.get? connectorId)

end ConnectorAccess

/-! ## Addresses -/

theorem ne_dot_of_idUnit {unit : CodeUnit} (hunit : idUnit unit = true) :
    unit ≠ ascii '.' := by
  rintro rfl
  exact absurd hunit (by decide)

theorem isConnectorId_iff {address : JsString} : isConnectorId address = true ↔
    address ≠ [] ∧ ∀ unit ∈ address, idUnit unit = true := by
  simp [isConnectorId]

/-- A connector id has no dot, so an address splits in one way. -/
theorem split_addressOf {connectorId toolName : JsString}
    (hid : ∀ unit ∈ connectorId, idUnit unit = true) :
    (addressOf connectorId toolName).takeWhile (· ≠ ascii '.') = connectorId ∧
      ((addressOf connectorId toolName).dropWhile (· ≠ ascii '.')).drop 1 =
        toolName := by
  have hplain : ∀ unit ∈ connectorId, decide (unit ≠ ascii '.') = true :=
    fun unit hunit => decide_eq_true (ne_dot_of_idUnit (hid unit hunit))
  constructor
  · rw [addressOf, List.takeWhile_append_of_pos hplain,
      List.takeWhile_cons_of_neg (by simp), List.append_nil]
  · rw [addressOf, List.dropWhile_append_of_pos hplain,
      List.dropWhile_cons_of_neg (by simp), List.drop_one, List.tail_cons]

theorem not_isConnectorId_addressOf (connectorId toolName : JsString) :
    isConnectorId (addressOf connectorId toolName) = false := by
  rw [← Bool.not_eq_true, isConnectorId_iff, addressOf]
  rintro ⟨-, hall⟩
  exact absurd (hall (ascii '.') (by simp)) (by decide)

/-- An accepted address is that of a tool on a connector with a valid id. -/
theorem isToolAddress_split {address : JsString}
    (haddress : isToolAddress address = true) :
    ∃ connectorId toolName, address = addressOf connectorId toolName ∧
      isConnectorId connectorId = true := by
  have hwhole : address.takeWhile idUnit ++ address.dropWhile idUnit = address :=
    List.takeWhile_append_dropWhile
  rw [isToolAddress] at haddress
  cases hrest : address.dropWhile idUnit with
  | nil =>
      simp [hrest] at haddress
  | cons dot tool =>
      rw [hrest] at haddress hwhole
      simp only [Bool.and_eq_true, decide_eq_true_eq] at haddress
      obtain ⟨⟨⟨hid, rfl⟩, -⟩, -⟩ := haddress
      refine ⟨address.takeWhile idUnit, tool, hwhole.symm, ?_⟩
      rw [isConnectorId_iff]
      exact ⟨hid, fun unit hunit => List.mem_takeWhile_imp hunit⟩

/-! ## Reading a list -/

theorem mem_addTo {set : List JsString} {member other : JsString} :
    other ∈ addTo set member ↔ other ∈ set ∨ other = member := by
  rw [addTo]
  split_ifs with hmember
  · constructor
    · exact .inl
    · rintro (hother | rfl)
      · exact hother
      · exact hmember
  · rw [List.mem_append, List.mem_singleton]

theorem mem_foldl_addTo {members set : List JsString} {other : JsString} :
    other ∈ members.foldl addTo set ↔ other ∈ set ∨ other ∈ members := by
  induction members generalizing set with
  | nil => simp
  | cons member rest ih =>
      rw [List.foldl_cons, ih, mem_addTo, List.mem_cons, or_assoc]

/-- The grants are those of the entries read so far. -/
structure Collects (entries : List Json) (grants : Grants) : Prop where
  whole : ∀ id, isConnectorId id = true →
    (id ∈ grants.whole ↔ Json.string id ∈ entries)
  some_tools : ∀ id tools, isConnectorId id = true →
    grants.tools.get? id = some tools → ∃ toolName, toolName ∈ tools
  tools : ∀ id toolName, isConnectorId id = true →
    (toolName ∈ (grants.tools.get? id).getD [] ↔
      Json.string (addressOf id toolName) ∈ entries)

theorem collects_nil : Collects [] {} where
  whole := by simp
  some_tools := by simp
  tools := by simp

/-- One entry is a valid id, or the address of a tool. -/
theorem grant_cases {grants later : Grants} {entry : Json}
    (hgrant : grants.grant entry = .ok later) :
    (∃ id, isConnectorId id = true ∧ entry = .string id ∧
      later = { grants with whole := addTo grants.whole id }) ∨
    (∃ id toolName, isConnectorId id = true ∧
      entry = .string (addressOf id toolName) ∧
      later = grants.grantTool id toolName) := by
  cases entry with
  | string address =>
      rw [Grants.grant] at hgrant
      split_ifs at hgrant with hid haddress
      · exact .inl ⟨address, hid, rfl, (Except.ok.inj hgrant).symm⟩
      · rw [Bool.or_eq_true, not_or, Bool.not_eq_true', Bool.not_eq_false] at haddress
        obtain ⟨id, toolName, rfl, hvalid⟩ := isToolAddress_split haddress.1
        obtain ⟨hbefore, hafter⟩ := @split_addressOf id toolName
          (isConnectorId_iff.mp hvalid).2
        rw [hbefore, hafter] at hgrant
        exact .inr ⟨id, toolName, hvalid, rfl, (Except.ok.inj hgrant).symm⟩
  | _ => cases hgrant

theorem addressOf_inj {id other toolName otherName : JsString}
    (hid : isConnectorId id = true) (hother : isConnectorId other = true)
    (heq : addressOf id toolName = addressOf other otherName) :
    id = other ∧ toolName = otherName := by
  obtain ⟨hbefore, hafter⟩ := @split_addressOf id toolName (isConnectorId_iff.mp hid).2
  obtain ⟨hbefore', hafter'⟩ :=
    @split_addressOf other otherName (isConnectorId_iff.mp hother).2
  rw [heq] at hbefore hafter
  exact ⟨hbefore.symm.trans hbefore', hafter.symm.trans hafter'⟩

theorem string_ne_addressOf {id other toolName : JsString}
    (hid : isConnectorId id = true) :
    Json.string id ≠ Json.string (addressOf other toolName) := by
  intro heq
  rw [Json.string.inj heq, not_isConnectorId_addressOf] at hid
  cases hid

theorem Collects.concat {entries : List Json} {entry : Json}
    {grants later : Grants} (hcollects : Collects entries grants)
    (hgrant : grants.grant entry = .ok later) :
    Collects (entries ++ [entry]) later := by
  rcases grant_cases hgrant with ⟨id, hid, rfl, rfl⟩ | ⟨id, toolName, hid, rfl, rfl⟩
  · refine ⟨fun other hother => ?_, hcollects.some_tools, fun other name hother => ?_⟩
    · rw [mem_addTo, hcollects.whole other hother, List.mem_append,
        List.mem_singleton, Json.string.injEq]
    · rw [hcollects.tools other name hother, List.mem_append, List.mem_singleton,
        or_iff_left (string_ne_addressOf hid).symm]
  · refine ⟨fun other hother => ?_, fun other tools hother hget => ?_,
      fun other name hother => ?_⟩
    · rw [List.mem_append, List.mem_singleton,
        or_iff_left (string_ne_addressOf hother)]
      exact hcollects.whole other hother
    · simp only [Grants.grantTool, OrderedMap.get?_set] at hget
      split_ifs at hget with hsame
      · rw [← Option.some.inj hget]
        exact ⟨toolName, mem_addTo.mpr (.inr rfl)⟩
      · exact hcollects.some_tools other tools hother hget
    · rw [List.mem_append, List.mem_singleton, ← hcollects.tools other name hother,
        Json.string.injEq]
      simp only [Grants.grantTool, OrderedMap.get?_set]
      split_ifs with hsame
      · subst hsame
        rw [Option.getD_some, mem_addTo]
        refine or_congr_right ⟨fun heq => heq ▸ rfl, fun heq => ?_⟩
        exact (addressOf_inj hother hid heq).2
      · rw [or_iff_left]
        exact fun heq => hsame (addressOf_inj hother hid heq).1

theorem collects_foldlM {rest entries : List Json} {grants later : Grants}
    (hcollects : Collects entries grants)
    (hfold : rest.foldlM Grants.grant grants = .ok later) :
    Collects (entries ++ rest) later := by
  induction rest generalizing entries grants with
  | nil =>
      cases hfold
      rwa [List.append_nil]
  | cons entry rest ih =>
      rw [List.foldlM_cons] at hfold
      cases hgrant : grants.grant entry with
      | error message =>
          rw [hgrant] at hfold
          cases hfold
      | ok next =>
          rw [hgrant] at hfold
          have hrest := ih (hcollects.concat hgrant) hfold
          rwa [List.append_assoc] at hrest

theorem get?_foldl_delete {ids : List JsString} {tools : ToolAccess}
    (id : JsString) : (ids.foldl OrderedMap.delete tools).get? id =
      if id ∈ ids then none else tools.get? id := by
  induction ids generalizing tools with
  | nil => simp
  | cons first rest ih =>
      rw [List.foldl_cons, ih, OrderedMap.get?_delete]
      by_cases hrest : id ∈ rest
      · simp [hrest]
      · by_cases hfirst : id = first
        · simp [hfirst]
        · simp [hrest, hfirst]

/-- An empty map knows no key, so leaving it out changes no lookup. -/
theorem granted_access (grants : Grants) (id : JsString) :
    grants.access.granted id =
      if id ∈ grants.whole then none else grants.tools.get? id := by
  rw [← get?_foldl_delete, ConnectorAccess.granted, Grants.access]
  dsimp only
  split_ifs with hsize
  · rfl
  · have hempty : (grants.whole.foldl OrderedMap.delete grants.tools).entries = [] :=
      List.length_eq_zero_iff.mp (Nat.eq_zero_of_not_pos hsize)
    rw [Option.bind_none, OrderedMap.get?, hempty]
    rfl

/-- What an accepted list comes to, for a connector with a valid id. -/
structure Means (value : Json) (access : ConnectorAccess) (id : JsString) :
    Prop where
  named : id ∈ access.connectorIds ↔ Names value id
  whole : access.granted id = none → Names value id → Lists value id
  byTool : ∀ tools, access.granted id = some tools → ¬ Lists value id ∧
    ∀ toolName, toolName ∈ tools ↔ Lists value (addressOf id toolName)

theorem lists_array {addresses : List Json} {address : JsString} :
    Lists (.array addresses) address ↔ Json.string address ∈ addresses := by
  constructor
  · rintro ⟨_, heq, hmem⟩
    rwa [Json.array.inj heq]
  · exact fun hmem => ⟨addresses, rfl, hmem⟩

theorem parseConnectorAccess_means {value : Json} {access : ConnectorAccess}
    (haccess : parseConnectorAccess value = .ok access) {id : JsString}
    (hid : isConnectorId id = true) : Means value access id := by
  cases value with
  | array addresses =>
      rw [parseConnectorAccess] at haccess
      cases hfold : addresses.foldlM Grants.grant {} with
      | error message =>
          rw [hfold] at haccess
          cases haccess
      | ok grants =>
          rw [hfold] at haccess
          obtain rfl := Except.ok.inj haccess
          have hcollects := collects_foldlM collects_nil hfold
          rw [List.nil_append] at hcollects
          have hnamed : (∃ tools, grants.tools.get? id = some tools) ↔
              ∃ toolName, Json.string (addressOf id toolName) ∈ addresses := by
            constructor
            · rintro ⟨tools, htools⟩
              obtain ⟨toolName, hmem⟩ := hcollects.some_tools id tools hid htools
              refine ⟨toolName, (hcollects.tools id toolName hid).mp ?_⟩
              rwa [htools]
            · rintro ⟨toolName, hmem⟩
              have hmember := (hcollects.tools id toolName hid).mpr hmem
              cases htools : grants.tools.get? id with
              | none =>
                  rw [htools] at hmember
                  cases hmember
              | some tools => exact ⟨tools, rfl⟩
          refine ⟨?_, ?_, ?_⟩
          · simp only [Names, lists_array, ← hnamed, ← hcollects.whole id hid]
            rw [Grants.access, mem_foldl_addTo, OrderedMap.mem_keys_iff]
            simp only [get?_foldl_delete]
            by_cases hwhole : id ∈ grants.whole
            · simp [hwhole]
            · simp [hwhole]
          · rw [granted_access]
            intro hnone hnames
            simp only [Names, lists_array, ← hnamed, ← hcollects.whole id hid] at hnames ⊢
            rcases hnames with hwhole | ⟨tools, htools⟩
            · exact hwhole
            · by_contra hnot
              rw [if_neg hnot, htools] at hnone
              cases hnone
          · intro tools hsome
            rw [granted_access] at hsome
            split_ifs at hsome with hwhole
            rw [lists_array, ← hcollects.whole id hid]
            refine ⟨hwhole, fun toolName => ?_⟩
            rw [lists_array, ← hcollects.tools id toolName hid, hsome,
              Option.getD_some]
  | _ => cases haccess

end Connecta.Registry
