import Connecta.Auth.InvocationAuth

/-!
# Authorization prompts

A call that fails for want of authorization may end in a prompt: a signed state
that names the call, the links given out for it so far and the reads it entered.
The request that brings the state back is the same call, made again.
-/

namespace Connecta.Auth

open Connecta.Runtime
open Connecta.Foundation (OrderedMap)
open Connecta.Inputs (Context MAX_INPUT_ROUNDS MAX_RELAY_STATE_CHARS MAX_SAFE_INTEGER
  REQUEST_STATE_TTL_MS Vault canonicalState hexDigest stringOf uuid)

def INPUT_KEY : JsString := .ofAscii "connecta_auth"

/-- Longer states are not given out, and not accepted. -/
def MAX_STATE_CHARS : ℕ := 8192

def HANDOFF_TTL_MS : ℕ := 15 * 60000

structure AuthRequestState where
  version : ℕ
  principal : JsString
  endpoint : JsString
  pool : Option JsString
  connector : JsString
  tool : JsString
  address : Option JsString
  wireTool : JsString
  digest : JsString
  round : ℕ
  expiresAt : ℕ
  browserNonces : List JsString
  reads : List ReplayRead
  deriving DecidableEq

/-- The last link of a chain, whose claim consumes the round. -/
def AuthRequestState.nonce (state : AuthRequestState) : JsString :=
  state.browserNonces.getLast?.getD []

/-! ## The request -/

structure Connector where
  startAuth : Bool
  credential : Bool

structure Options where
  vault : Vault
  publicUrl : Option JsString
  endpoint : JsString
  principal : Option JsString
  /-- The pool of the registry's result identity. -/
  pool : Option JsString
  getConnector : JsString → Option Connector
  canManage : JsString → Bool
  unavailable : Option JsString
  credentialUi : Bool

structure Request where
  options : Options
  context : Context
  tool : JsString
  args : List (JsString × Json)

def truthy (text : Option JsString) : Bool := text.any fun text => text ≠ []

/-- What the codec binds a state to; its canonical text tells the three apart. -/
structure Bound where
  principal : Option JsString
  endpoint : JsString
  pool : Option JsString
  deriving DecidableEq

def bind (options : Options) : Bound :=
  ⟨options.principal, options.endpoint, options.pool⟩

variable (sha256 : List ℕ → Option JsString)

/-- `requestDigest(tool, args)`, absent where the platform refuses to hash. -/
def requestDigest (tool : JsString) (args : List (JsString × Json)) : Option JsString :=
  sha256 (canonicalState (.object [(.ofAscii "tool", .string tool),
    (.ofAscii "args", .object args)])).utf8

def retriedTools : List JsString :=
  [.ofAscii "call_tool", .ofAscii "call_destructive_tool", .ofAscii "execute_code",
    .ofAscii "execute_read_code", .ofAscii "authorize_connector"]

/-! ## Verifying a state -/

/-- The checks of a state by itself. -/
def wellFormed (state : AuthRequestState) : Bool :=
  state.version = 1 && state.expiresAt ≤ MAX_SAFE_INTEGER && 1 ≤ state.round &&
    state.round ≤ MAX_INPUT_ROUNDS && retriedTools.contains state.tool &&
    hexDigest state.digest && state.browserNonces.length = state.round &&
    state.browserNonces.all uuid && state.reads.all fun read => hexDigest read.digest

/-- The checks of a state against the request that presents it. -/
def presentedBy (request : Request) (state : AuthRequestState) : Bool :=
  truthy request.options.principal && request.options.principal = some state.principal &&
    state.endpoint = request.options.endpoint && state.pool = request.options.pool &&
    (request.options.getConnector state.connector).isSome &&
    request.options.canManage state.connector &&
    request.context.method = .ofAscii "tools/call" &&
    request.context.mcpName = some state.wireTool

/-- The state a wire form stands for; the codec opens it by its binding. -/
def verify (opened : Bound → JsString → Option AuthRequestState) (request : Request)
    (wire : JsString) (now : ℕ) : Option AuthRequestState :=
  if request.options.vault.requestStateKey && wire.length ≤ MAX_RELAY_STATE_CHARS then
    match opened (bind request.options) wire with
    | none => none
    | some state =>
        if wire.length ≤ MAX_STATE_CHARS && wellFormed state && presentedBy request state &&
            now < state.expiresAt && state.expiresAt ≤ now + REQUEST_STATE_TTL_MS then
          some state
        else none
  else none

/-! ## Before the operation -/

/-- `previous.address === args.address` -/
def sameAddress (address : Option JsString) (args : List (JsString × Json)) : Bool :=
  match address, args.lookup (.ofAscii "address") with
  | none, none => true
  | some address, some (.string given) => address = given
  | _, _ => false

/-- A state is used for the call it names. -/
def namesCall (request : Request) (previous : AuthRequestState) : Bool :=
  request.context.mcpName = some previous.wireTool && previous.tool = request.tool &&
    requestDigest sha256 request.tool request.args = some previous.digest &&
    sameAddress previous.address request.args

/-- The `action` of an answer that is an object. -/
def actionOf (response : Option Json) : Option (Option Json) :=
  match response with
  | some (.object members) => some (members.lookup (.ofAscii "action"))
  | _ => none

def validAction (response : Option Json) : Bool :=
  (actionOf response).all fun action => [JsString.ofAscii "accept", .ofAscii "decline",
    .ofAscii "cancel"].contains (stringOf action)

def refuses (response : Option Json) : Bool :=
  match actionOf response with
  | some (some (.string action)) =>
      action = .ofAscii "decline" || action = .ofAscii "cancel"
  | _ => false

/-- An entered read is still the same fresh read. -/
def stillRead (read : ReplayRead) (current : Option Target) : Bool :=
  current.any fun target => target.classificationFresh &&
    !isWriteLike target.definition &&
    classificationDigest sha256 target.definition = read.digest

/-! ## After the operation -/

structure ToolResult where
  isError : Bool
  structuredContent : List (JsString × Json)

def ToolResult.error (result : ToolResult) : Option (List (JsString × Json)) :=
  match result.structuredContent.lookup (.ofAscii "error") with
  | some (.object members) => some members
  | _ => none

def authFailure (result : ToolResult) : Bool :=
  result.isError && result.error.any fun error =>
    match error.lookup (.ofAscii "code") with
    | some (.string code) =>
        code = .ofAscii "auth_required" || code = .ofAscii "downstream_oauth_required"
    | _ => false

def explicit (request : Request) (result : ToolResult) : Bool :=
  request.tool = .ofAscii "authorize_connector" &&
    [JsString.ofAscii "oauth", .ofAscii "operator_config"].contains
      (stringOf (result.structuredContent.lookup (.ofAscii "recovery")))

/-- `/^[a-z0-9_-]+$/` -/
def connectorId (id : JsString) : Bool :=
  id ≠ [] && id.all fun unit => (ascii 'a' ≤ unit && unit ≤ ascii 'z') ||
    Json.digit unit || unit = ascii '_' || unit = ascii '-'

/-- The one gate before any recovery link, with the connector it lets through. -/
def mayConnect (options : Options) (id : Option Json) : Option JsString :=
  match id with
  | some (.string id) =>
      if connectorId id && ((options.getConnector id).any fun connector =>
          connector.startAuth || (connector.credential && options.credentialUi)) &&
          truthy options.principal && truthy options.publicUrl &&
          !truthy options.unavailable && options.canManage id then some id
      else none
  | _ => none

/-- The client can be asked to open a link. -/
def capable (context : Context) : Bool := context.modern && context.elicitation.url

inductive Settled where
  /-- The result, perhaps with the advice to reconcile. -/
  | returned (reconcile : Bool)
  /-- The result with a link beside it. -/
  | linked (reconcile : Bool)
  | roundLimit
  | prompts (connector : JsString) (forced : Bool) (facts : RecoveryFacts)

/-- The connector a failure names, or the one to authorize. -/
def recoveredId (request : Request) (result : ToolResult) : Option Json :=
  if authFailure result then result.error.bind fun error =>
    error.lookup (.ofAscii "connector")
  else request.args.lookup (.ofAscii "connector")

def settle (request : Request) (previous : Option AuthRequestState)
    (invocations : RequestInvocations) (result : ToolResult) : Settled :=
  let failed := authFailure result
  let asked := explicit request result
  if !failed && !asked then .returned false
  else
    let id := recoveredId request result
    let facts := authRecoveryFacts sha256 invocations (stringOf id)
    let blocked := !asked && (!facts.eligible || facts.writeEntered)
    let reconcile := failed && (facts.unsafeEntered ||
      (request.tool ≠ .ofAscii "call_tool" && !facts.eligible))
    match mayConnect request.options id with
    | none => .returned reconcile
    | some connector =>
        let vault := request.options.vault
        if !capable request.context then .returned reconcile
        else if blocked || !vault.requestStateKey || !vault.seals || !vault.opens then
          if !failed then .returned reconcile else .linked reconcile
        else if previous.any fun previous => MAX_INPUT_ROUNDS ≤ previous.round then
          .roundLimit
        else .prompts connector
          (asked && isTrue (request.args.lookup (.ofAscii "force"))) facts

/-- `[...new Map(reads.map((read) => [read.address, read])).values()]` -/
def mergeReads (reads : List ReplayRead) : List ReplayRead :=
  (mapOf (reads.map fun read => (read.address, read))).entries.map Prod.snd

def addressOf (args : List (JsString × Json)) : Option JsString :=
  match args.lookup (.ofAscii "address") with
  | some (.string address) => some address
  | _ => none

def mintState (request : Request) (previous : Option AuthRequestState)
    (connector digest : JsString) (facts : RecoveryFacts) (nonce : JsString) (now : ℕ) :
    AuthRequestState where
  version := 1
  principal := request.options.principal.getD []
  endpoint := request.options.endpoint
  pool := request.options.pool
  connector := connector
  tool := request.tool
  address := addressOf request.args
  wireTool := request.context.mcpName.getD request.tool
  digest := digest
  round := (previous.map AuthRequestState.round).getD 0 + 1
  expiresAt := (previous.map AuthRequestState.expiresAt).getD (now + REQUEST_STATE_TTL_MS)
  browserNonces := (previous.map AuthRequestState.browserNonces).getD [] ++ [nonce]
  reads := mergeReads ((previous.map AuthRequestState.reads).getD [] ++ facts.reads)

/-! ## What a prompt keeps -/

theorem verify_eq_some {opened : Bound → JsString → Option AuthRequestState}
    {request : Request} {wire : JsString} {now : ℕ} {state : AuthRequestState}
    (hverify : verify opened request wire now = some state) :
    opened (bind request.options) wire = some state ∧ wellFormed state = true ∧
      presentedBy request state = true ∧ now < state.expiresAt := by
  rw [verify] at hverify
  split_ifs at hverify
  cases hopened : opened (bind request.options) wire with
  | none =>
      rw [hopened] at hverify
      cases hverify
  | some found =>
      rw [hopened] at hverify
      simp only [Bool.and_eq_true, decide_eq_true_eq] at hverify
      split_ifs at hverify with hchecks
      obtain rfl := Option.some.inj hverify
      obtain ⟨⟨⟨⟨-, hformed⟩, hpresented⟩, hfresh⟩, -⟩ := hchecks
      exact ⟨rfl, hformed, hpresented, hfresh⟩

theorem mergeReads_nodup (reads : List ReplayRead) :
    ((mergeReads reads).map ReplayRead.address).Nodup := by
  have hkeys : (mergeReads reads).map ReplayRead.address =
      (mapOf (reads.map fun read => (read.address, read))).entries.map Prod.fst := by
    rw [mergeReads, List.map_map]
    refine List.map_congr_left fun entry hentry => ?_
    obtain ⟨known, -, rfl⟩ := List.mem_map.mp (mem_of_mem_mapOf hentry)
    rfl
  rw [hkeys]
  exact (mapOf _).nodup

/-- A read whose address has one digest is kept. -/
theorem mem_mergeReads {reads : List ReplayRead} {read : ReplayRead} (hread : read ∈ reads)
    (hagree : ∀ other ∈ reads, other.address = read.address → other = read) :
    read ∈ mergeReads reads := by
  refine List.mem_map.mpr ⟨(read.address, read),
    OrderedMap.get?_eq_some_iff.mp (get?_mapOf ?_ ?_), rfl⟩
  · intro entry hentry haddress
    obtain ⟨other, hother, rfl⟩ := List.mem_map.mp hentry
    exact hagree other hother haddress
  · exact List.mem_map_of_mem hread

variable {sha256}

/-- A prompt is asked for, or rests on facts that allow a retry. -/
theorem settle_prompts {request : Request} {previous : Option AuthRequestState}
    {invocations : RequestInvocations} {result : ToolResult} {connector : JsString}
    {forced : Bool} {facts : RecoveryFacts}
    (hsettle : settle sha256 request previous invocations result =
      .prompts connector forced facts) :
    (∃ id, facts = authRecoveryFacts sha256 invocations id) ∧
      (request.tool = .ofAscii "authorize_connector" ∨ facts.eligible = true) ∧
      ∀ state ∈ previous, state.round < MAX_INPUT_ROUNDS := by
  simp only [settle] at hsettle
  split at hsettle
  · cases hsettle
  split at hsettle
  · cases hsettle
  split at hsettle
  · cases hsettle
  split at hsettle
  · split at hsettle
    · cases hsettle
    · cases hsettle
  rename_i hblocked
  split at hsettle
  · cases hsettle
  rename_i hround
  cases hsettle
  refine ⟨⟨_, rfl⟩, ?_, fun state hstate => ?_⟩
  · simp only [Bool.or_eq_true, Bool.and_eq_true, not_or, not_and, Bool.not_eq_true',
      Bool.not_eq_false] at hblocked
    by_cases hasked : explicit request result = true
    · simp only [explicit, Bool.and_eq_true, decide_eq_true_eq] at hasked
      exact .inl hasked.1
    · have heligible := (hblocked.1.1.1 (Bool.eq_false_iff.mpr hasked)).1
      exact .inr heligible
  · rw [Option.mem_def.mp hstate, Option.any_some, decide_eq_true_eq, not_le] at hround
    exact hround

end Connecta.Auth
