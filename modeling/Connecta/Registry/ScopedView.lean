import Connecta.Registry.ConnectorAccess

/-!
# Scoped views of a registry

A request reaches connectors only through a view of the registry.  The view
names the connectors its caller was granted, resolves the registry that serves
each one when it is used, and leaves out the tools of a connector granted by
address only.  What a registry answers is a parameter; what a view asks of one
is recorded.
-/

namespace Connecta.Registry

open Connecta.Foundation
open Connecta.Runtime

/-! ## Callers -/

/-- A unit of a mailbox, on either side of its sign. -/
def addressUnit (unit : CodeUnit) : Bool :=
  !JsString.whiteSpace unit && !oneOf "@<>()\",;:\\[]" unit.toNat

def isWorkspaceAddress (value : JsString) : Bool :=
  match value.dropWhile addressUnit with
  | [] => false
  | sign :: domain =>
      value.takeWhile addressUnit ≠ [] && sign = ascii '@' &&
        domain.all addressUnit && (domain.drop 1).dropLast.contains (ascii '.')

structure Caller where
  /-- `identity.agent` -/
  agent : Option JsString
  pool : Option JsString
  poolOwner : Option JsString

/-- Whose account a Workspace connector acts as. -/
inductive WorkspaceSubject where
  | mapping
  | fixed (subject : JsString)
  deriving DecidableEq

structure Connector where
  id : JsString
  /-- `authScope` is `"personal"`. -/
  personal : Bool
  workspaceSubject : Option WorkspaceSubject

structure Scope where
  connectorIds : ConnectorIds
  toolAccess : Option ToolAccess
  principalKey : Option JsString
  caller : Option Caller

/-- What a registry reads of a scope: who is asking. -/
structure Asker where
  principalKey : Option JsString
  caller : Option Caller

namespace Scope

def asker (scope : Scope) : Asker := ⟨scope.principalKey, scope.caller⟩

/-- The principal key, where it is not empty. -/
def principal (scope : Scope) : Option JsString :=
  scope.principalKey.filter (· ≠ [])

def granted (scope : Scope) (id : JsString) : Option (List JsString) :=
  scope.toolAccess.bind (·.get? id)

/-- An agent admitted through a pool that names no Workspace owner. -/
def agentWithoutOwner (scope : Scope) : Bool :=
  match scope.caller with
  | none => false
  | some caller =>
      caller.agent.isSome &&
        (caller.pool.isNone || !(caller.poolOwner.any isWorkspaceAddress))

end Scope

/-! ## Registries -/

/-- The root, or a principal's own registry by its serial number: an evicted
one is not revived. -/
inductive Delegate where
  | root
  | personal (principalKey : JsString) (serial : ℕ)
  deriving DecidableEq

/-- The registry an isolate was configured with. -/
structure Root where
  connectors : OrderedMap JsString Connector
  /-- Construction refuses any other id. -/
  keyed : ∀ entry ∈ connectors.entries,
    entry.2.id = entry.1 ∧ isConnectorId entry.1 = true
  /-- Least recently used first. -/
  personalRegistries : OrderedMap JsString ℕ := .empty
  created : ℕ := 0
  /-- The personal registries whose call admission is closed. -/
  closed : List ℕ := []
  callAdmissionClosed : Bool := false

inductive Operation where
  | getTools
  | peekCatalog
  | contextFor
  | admitCall
  | credentialDriftFor
  | observedOutputSchema
  | observeOutputShape
  | catalogAgeMs
  | statusFor
  | withCatalogObservations
  | invalidateStored

/-- A registry was asked to act on a connector. -/
structure Act where
  delegate : Delegate
  operation : Operation
  id : JsString

inductive Note where
  | failure (connectorId : JsString)
  | warning (text : JsString)

structure World where
  root : Root
  acts : List Act := []
  /-- `warnedAbsentGrants` of the root, oldest first. -/
  warned : List JsString := []
  notes : List Note := []

abbrev Step (Value : Type) := World → Except JsString Value × World

def MAX_PERSONAL_REGISTRIES : ℕ := 1024

def MAX_ABSENT_GRANT_WARNINGS : ℕ := 1024

def capacityExhausted : JsString := JsString.ofAscii
  "Personal connector capacity is exhausted; retry after calls, rolling budgets, and catalog refreshes drain."

def unknownConnector (id : JsString) : JsString :=
  JsString.ofAscii "Unknown connector \"" ++ id ++ [ascii '"']

def unknownScope (id : JsString) : JsString :=
  JsString.ofAscii "Registry scope names unknown connector \"" ++ id ++ [ascii '"']

namespace Root

/-- A new registry for the principal, most recently used. -/
def create (root : Root) (principalKey : JsString) : ℕ × Root :=
  (root.created, { root with
    personalRegistries := root.personalRegistries.set principalKey root.created
    created := root.created + 1
    closed := if root.callAdmissionClosed then root.created :: root.closed
      else root.closed })

/-- `idle` tells which registries have nothing running. -/
def personalRegistry (root : Root) (idle : ℕ → Bool) (principalKey : JsString) :
    Except JsString ℕ × Root :=
  match root.personalRegistries.get? principalKey with
  | some existing => (.ok existing, { root with
      personalRegistries :=
        (root.personalRegistries.delete principalKey).set principalKey existing })
  | none =>
      if MAX_PERSONAL_REGISTRIES ≤ root.personalRegistries.size then
        match root.personalRegistries.entries.find? fun entry => idle entry.2 with
        | none => (.error capacityExhausted, root)
        | some (evicted, serial) =>
            let (created, root) := create { root with
              personalRegistries := root.personalRegistries.delete evicted
              closed := serial :: root.closed } principalKey
            (.ok created, root)
      else
        let (created, root) := root.create principalKey
        (.ok created, root)

/-- `getConnector` of one registry. -/
def connectorOf (root : Root) (delegate : Delegate) (id : JsString) :
    Option Connector :=
  match delegate with
  | .root => root.connectors.get? id
  | .personal _ _ => (root.connectors.get? id).filter Connector.personal

end Root

namespace World

def act (world : World) (delegate : Delegate) (operation : Operation)
    (id : JsString) : World :=
  { world with acts := world.acts ++ [⟨delegate, operation, id⟩] }

/-- Line terminators a log reader may honour are escaped. -/
def quotedKey (key : JsString) : JsString :=
  (Json.quote key).flatMap fun unit =>
    if unit = 0x2028 then JsString.ofAscii "\\u2028"
    else if unit = 0x2029 then JsString.ofAscii "\\u2029" else [unit]

def noteAbsentGrant (connectorId : JsString) (world : World)
    (toolName : JsString) : World :=
  let key := addressOf connectorId toolName
  if key ∈ world.warned then world
  else
    let warned := world.warned ++ [key]
    { world with
      warned := if MAX_ABSENT_GRANT_WARNINGS < warned.length then warned.drop 1
        else warned
      notes := world.notes ++ [
        if hasControlCharacters toolName then .failure connectorId
        else .warning (JsString.ofAscii "a pool grants " ++ quotedKey key ++
          JsString.ofAscii " but connector \"" ++ connectorId ++
          JsString.ofAscii "\" lists no such tool; the grant is unreachable")] }

end World

/-! ## Views -/

structure View where
  allowed : List JsString
  scope : Scope
  /-- The personal registry of the view's construction. -/
  admissionPersonal : Option Delegate
  owned : ∀ delegate, admissionPersonal = some delegate →
    ∃ key serial, scope.principal = some key ∧ delegate = .personal key serial

/-- The principal's own registry, where there is a principal. -/
def Scope.personal (scope : Scope) (idle : ℕ → Bool) : Step (Option Delegate) :=
  fun world =>
    match scope.principal with
    | none => (.ok none, world)
    | some key =>
        match world.root.personalRegistry idle key with
        | (.ok serial, root) => (.ok (some (.personal key serial)), { world with root })
        | (.error message, _) => (.error message, world)

theorem Scope.personal_owned {scope : Scope} {idle : ℕ → Bool}
    {world later : World} {found : Option Delegate}
    (hpersonal : scope.personal idle world = (.ok found, later)) :
    ∀ delegate, found = some delegate →
      ∃ key serial, scope.principal = some key ∧ delegate = .personal key serial := by
  rintro delegate rfl
  rw [Scope.personal] at hpersonal
  split at hpersonal
  · cases hpersonal
  · rename_i key hkey
    split at hpersonal
    · rename_i serial _ _
      cases hpersonal
      exact ⟨key, serial, hkey, rfl⟩
    · cases hpersonal

/-- `scoped`, with the constructor of the view it returns. -/
def scopedView (idle : ℕ → Bool) (scope : Scope) : Step View := fun world =>
  let requested := match scope.connectorIds with
    | .all => world.root.connectors.keys
    | .only ids => ids
  match requested.find? fun id => (world.root.connectors.get? id).isNone with
  | some id => (.error (unknownScope id), world)
  | none =>
      match hpersonal : scope.personal idle world with
      | (.ok admissionPersonal, later) =>
          (.ok ⟨requested, scope, admissionPersonal, Scope.personal_owned hpersonal⟩,
            later)
      | (.error message, later) => (.error message, later)

structure ToolDef (Facts : Type) where
  name : JsString
  facts : Facts

structure CatalogPeek (Facts : Type) where
  tools : List (ToolDef Facts)
  fetchedAt : ℕ
  fresh : Bool

/-- What registries answer, for every way a method may be called. -/
structure Answers (Args Facts Answer : Type) where
  getTools : Delegate → JsString → Args → Asker → Except JsString (List (ToolDef Facts))
  peekCatalog : Delegate → JsString → Args → Asker →
    Except JsString (Option (CatalogPeek Facts))
  other : Delegate → Operation → JsString → Args → Asker → Except JsString Answer

/-- What a view's method answers. -/
inductive Reply (Answer : Type) where
  | answered (answer : Answer)
  | undefined
  | null
  | status (state message : JsString)

def unknownStatus {Answer : Type} : Reply Answer :=
  .status (JsString.ofAscii "error") (JsString.ofAscii "Unknown connector")

/-- Split on the first dot. -/
def splitAddress (address : JsString) : Option (JsString × JsString) :=
  let connectorId := address.takeWhile (· ≠ ascii '.')
  let toolName := (address.dropWhile (· ≠ ascii '.')).drop 1
  if connectorId = [] ∨ toolName = [] then none else some (connectorId, toolName)

namespace View

variable {Args Facts Answer : Type}

/-- The registry that serves a connector to the view's caller, whatever was
granted; absent where the connector is absent for that caller. -/
def connectorRegistry (view : View) (idle : ℕ → Bool) (admission : Bool)
    (id : JsString) : Step (Option Delegate) := fun world =>
  match world.root.connectors.get? id with
  | none => (.ok none, world)
  | some connector =>
      if view.scope.agentWithoutOwner &&
          connector.workspaceSubject = some .mapping then (.ok none, world)
      else if !connector.personal then (.ok (some .root), world)
      else if admission then (.ok view.admissionPersonal, world)
      else view.scope.personal idle world

def registryFor (view : View) (idle : ℕ → Bool) (admission : Bool)
    (id : JsString) : Step (Option Delegate) := fun world =>
  if id ∈ view.allowed then view.connectorRegistry idle admission id world
  else (.ok none, world)

def keepServed (view : View) (idle : ℕ → Bool) :
    List Connector → Step (List Connector)
  | [], world => (.ok [], world)
  | connector :: rest, world =>
      match view.registryFor idle false connector.id world with
      | (.error message, world) => (.error message, world)
      | (.ok served, world) =>
          match keepServed view idle rest world with
          | (.ok kept, world) =>
              (.ok (if served.isSome then connector :: kept else kept), world)
          | (.error message, world) => (.error message, world)

def listConnectors (view : View) (idle : ℕ → Bool) : Step (List Connector) :=
  fun world =>
    view.keepServed idle (world.root.connectors.entries.map Prod.snd) world

def canReadConnectorSkills (view : View) (idle : ℕ → Bool) (id : JsString) :
    Step Bool := fun world =>
  match view.registryFor idle false id world with
  | (.ok served, world) =>
      (.ok (served.isSome && (view.scope.granted id).isNone), world)
  | (.error message, world) => (.error message, world)

def getConnector (view : View) (idle : ℕ → Bool) (id : JsString) :
    Step (Option Connector) := fun world =>
  match view.registryFor idle false id world with
  | (.ok served, world) => (.ok (served.bind (world.root.connectorOf · id)), world)
  | (.error message, world) => (.error message, world)

def getResourceConnector (view : View) (idle : ℕ → Bool) (id : JsString) :
    Step (Option Connector) :=
  if (view.scope.granted id).isSome then fun world => (.ok none, world)
  else view.getConnector idle id

def resolveAddress (view : View) (idle : ℕ → Bool) (address : JsString) :
    Step (Option (Connector × JsString)) := fun world =>
  match splitAddress address with
  | none => (.ok none, world)
  | some (connectorId, toolName) =>
      match view.getConnector idle connectorId world with
      | (.ok connector, world) => (.ok (connector.map (·, toolName)), world)
      | (.error message, world) => (.error message, world)

def getTools (view : View) (answers : Answers Args Facts Answer) (idle : ℕ → Bool)
    (id : JsString) (args : Args) : Step (List (ToolDef Facts)) := fun world =>
  match view.registryFor idle false id world with
  | (.error message, world) => (.error message, world)
  | (.ok none, world) => (.error (unknownConnector id), world)
  | (.ok (some delegate), world) =>
      let world := world.act delegate .getTools id
      match answers.getTools delegate id args view.scope.asker with
      | .error message => (.error message, world)
      | .ok tools =>
          match view.scope.granted id with
          | none => (.ok tools, world)
          | some granted =>
              let visible := tools.filter fun tool => granted.contains tool.name
              let absent := if visible.length < granted.length then
                  granted.filter fun name => !(tools.map ToolDef.name).contains name
                else []
              (.ok visible, absent.foldl (World.noteAbsentGrant id) world)

def peekCatalog (view : View) (answers : Answers Args Facts Answer)
    (idle : ℕ → Bool) (id : JsString) (args : Args) :
    Step (Option (CatalogPeek Facts)) := fun world =>
  match view.registryFor idle false id world with
  | (.error message, world) => (.error message, world)
  | (.ok none, world) => (.ok none, world)
  | (.ok (some delegate), world) =>
      let world := world.act delegate .peekCatalog id
      match answers.peekCatalog delegate id args view.scope.asker with
      | .error message => (.error message, world)
      | .ok none => (.ok none, world)
      | .ok (some peek) =>
          match view.scope.granted id with
          | none => (.ok (some peek), world)
          -- a pool grant binds a stale listing exactly as it binds a live one
          | some granted => (.ok (some { peek with
              tools := peek.tools.filter fun tool => granted.contains tool.name }),
              world)

/-- The methods that pass a call on, and what they answer where no registry
serves the connector. -/
def forward (view : View) (answers : Answers Args Facts Answer) (idle : ℕ → Bool)
    (operation : Operation) (admission : Bool)
    (missing : Except JsString (Reply Answer)) (id : JsString) (args : Args) :
    Step (Reply Answer) := fun world =>
  match view.registryFor idle admission id world with
  | (.error message, world) => (.error message, world)
  | (.ok none, world) => (missing, world)
  | (.ok (some delegate), world) =>
      ((answers.other delegate operation id args view.scope.asker).map .answered,
        world.act delegate operation id)

section Forwarded

variable (view : View) (answers : Answers Args Facts Answer) (idle : ℕ → Bool)
variable (id : JsString) (args : Args)

def contextFor : Step (Reply Answer) :=
  view.forward answers idle .contextFor false (.error (unknownConnector id)) id args

/-- An evicted view's admission controller must remain closed. -/
def admitCall : Step (Reply Answer) :=
  view.forward answers idle .admitCall true (.error (unknownConnector id)) id args

def credentialDriftFor : Step (Reply Answer) :=
  view.forward answers idle .credentialDriftFor false (.ok .undefined) id args

def observedOutputSchema : Step (Reply Answer) :=
  view.forward answers idle .observedOutputSchema false (.ok .undefined) id args

def observeOutputShape : Step (Reply Answer) :=
  view.forward answers idle .observeOutputShape false (.ok .undefined) id args

def catalogAgeMs : Step (Reply Answer) :=
  view.forward answers idle .catalogAgeMs false (.ok .null) id args

def statusFor : Step (Reply Answer) :=
  view.forward answers idle .statusFor false (.ok unknownStatus) id args

def withCatalogObservations : Step (Reply Answer) :=
  view.forward answers idle .withCatalogObservations false (.ok unknownStatus) id args

def invalidateStored : Step (Reply Answer) :=
  view.forward answers idle .invalidateStored false (.ok .undefined) id args

end Forwarded

end View

end Connecta.Registry
