import Connecta.Foundation.Programs
import Connecta.Runtime.Utf16

/-!
# The grant record of downstream OAuth

One owner's grant is one stored record: its epoch, the body of one authorization
server, and what was observed of its tokens.  It changes by compare-and-set
only, from what a writer read; a reader may seal a plain record in place.  Every
write is logged with the record it replaced and what it was for.
-/

namespace Connecta.GrantStore

open Connecta.Programs
open Connecta.Runtime

/-! ## The record -/

inductive Epoch where
  | initial
  | active (id : ℕ)
  | disconnected (id : ℕ)
  deriving DecidableEq

namespace Epoch

/-- The random part of a minted epoch. -/
def id : Epoch → Option ℕ
  | .initial => none
  | .active id | .disconnected id => some id

/-- `isDisconnectedEpoch` -/
def isDisconnected : Epoch → Bool
  | .disconnected _ => true
  | .initial | .active _ => false

end Epoch

structure OAuthTokens where
  accessToken : JsString
  refreshToken : Option JsString
  expiresIn : Option ℕ
  issuer : Option JsString
  deriving DecidableEq

structure ClientInformation where
  clientId : JsString
  clientSecretExpiresAt : Option ℕ
  deriving DecidableEq

inductive RegistrationPath where
  | cimd
  | dcr
  | fixed
  deriving DecidableEq

structure Client where
  value : ClientInformation
  binding : Option JsString
  carried : Bool
  registrationPath : Option RegistrationPath
  deriving DecidableEq

/-- A discovery record, `issuer` as `discoveryIssuer` reads it. -/
structure Discovery where
  issuer : Option JsString
  state : JsString
  deriving DecidableEq

structure RefreshConsent where
  digest : JsString
  resolution : JsString
  deriving DecidableEq

/-- A credential with the server whose body it was written into, a fact of the
model that nothing reads back. -/
structure Written (Credential : Type) where
  value : Credential
  under : Option JsString
  deriving DecidableEq

structure GrantBody where
  issuer : Option JsString := none
  client : Option (Written Client) := none
  tokens : Option (Written OAuthTokens) := none
  expiresAt : Option ℕ := none
  discovery : Option Discovery := none
  refreshConsent : Option RefreshConsent := none
  deriving DecidableEq

inductive TokenOutcome where
  | accepted
  | refused
  deriving DecidableEq

structure GrantObservation where
  revision : ℕ
  outcome : TokenOutcome
  deriving DecidableEq

structure Grant where
  epoch : Epoch
  tokenRevision : Option ℕ := none
  observation : Option GrantObservation := none
  flow : Option JsString := none
  body : GrantBody := {}
  deriving DecidableEq

/-- The revision an absent field stands for. -/
def Grant.revision (grant : Grant) : ℕ := grant.tokenRevision.getD 0

/-- A grant as stored: `cipher` is the randomness of its sealed body. -/
structure StoredGrant where
  grant : Grant
  cipher : Option ℕ
  deriving DecidableEq

/-- The grant a stored record holds, whoever can open it. -/
def contents : Option StoredGrant → Grant
  | none => { epoch := .initial }
  | some stored => stored.grant

/-- A token snapshot, with the tokens it was taken of. -/
structure Snapshot where
  epoch : Epoch
  revision : ℕ
  tokens : OAuthTokens

/-- What a write is for.  `begun`: the epoch of the flow or refresh that obtained
the tokens. -/
inductive Purpose where
  | sealing
  | tokens (begun : Option Epoch) (codeExchange : Bool)
  | refresh (begun : Epoch)
  | client
  | discovery
  | issuer
  | flow
  | invalidation
  | refusal
  | outcome (snapshot : Snapshot) (outcome : TokenOutcome)
  | reset

structure Commit where
  replaced : Option StoredGrant
  stored : StoredGrant
  purpose : Purpose

/-! ## The operations of the store -/

inductive GrantOp where
  | get
  | compareAndSet (expected : Option StoredGrant) (next : StoredGrant)
      (purpose : Purpose)
  | randomUUID
  /-- Whether the caller's signal has aborted. -/
  | aborted
  /-- Whether this vault opens the sealed body. -/
  | unseal
  /-- The randomness of a sealed body. -/
  | seal
  | now

abbrev GrantAnswer : GrantOp → Type
  | .get => Option StoredGrant
  | .compareAndSet _ _ _ | .aborted | .unseal => Bool
  | .randomUUID | .seal | .now => ℕ

structure World where
  cell : Option StoredGrant
  /-- Every number below has been drawn. -/
  drawn : ℕ
  log : List Commit

def World.empty : World where
  cell := none
  drawn := 0
  log := []

/-- Why an answer does not come. -/
inductive Interruption where
  | failed
  | aborted

abbrev GrantProgram (Result : Type) :=
  Program GrantOp GrantAnswer Interruption Result

inductive Fault where
  | storage
  | aborted
  | flowSuperseded
  | credentialWriteError
  | revisionExhausted
  deriving DecidableEq

def Interruption.fault : Interruption → Fault
  | .failed => .storage
  | .aborted => .aborted

/-! ## A provider -/

/-- `RemoteOAuthClient`, as far as a grant depends on it. -/
structure ConfiguredClient where
  clientId : JsString
  issuer : JsString
  deriving DecidableEq

/-- The fields of a `KvOAuthProvider` its grant methods read. -/
structure Provider where
  epoch : Option Epoch
  bound : Bool
  codeExchange : Bool
  sealer : Bool
  clientBinding : Option JsString
  clientMetadataUrl : Option JsString
  configuredClient : Option ConfiguredClient
  seenClient : Option ClientInformation
  seenTokens : Option OAuthTokens

/-- `MAX_GRANT_WRITES` -/
def maxGrantWrites : ℕ := 32

/-- Ask the store; an answer that does not come is a fault. -/
def wait {Result : Type} (op : GrantOp)
    (next : GrantAnswer op → GrantProgram (Except Fault Result)) :
    GrantProgram (Except Fault Result) :=
  .ask op fun
    | .ok answer => next answer
    | .error interruption => .done (.error interruption.fault)

/-- Continue where the first program did not fail. -/
def andThen {First Second : Type} (first : GrantProgram (Except Fault First))
    (next : First → GrantProgram (Except Fault Second)) :
    GrantProgram (Except Fault Second) :=
  first >>= fun
    | .ok result => next result
    | .error fault => .done (.error fault)

/-- `encodeGrant` -/
def encodeGrant (provider : Provider) (grant : Grant) :
    GrantProgram (Except Fault StoredGrant) :=
  if provider.sealer && grant.body ≠ {} then
    wait .seal fun cipher => .done (.ok { grant := grant, cipher := some cipher })
  else .done (.ok { grant := grant, cipher := none })

/-- What the record says in the clear, with the body a vault opened. -/
def readable (grant : Grant) (body : GrantBody) : Grant :=
  { epoch := grant.epoch
    tokenRevision := grant.tokenRevision
    observation := grant.observation.filter fun observation =>
      observation.revision = grant.revision
    flow := grant.flow
    body := body }

/-- `openGrant` -/
def openGrant (raw : Option StoredGrant) : GrantProgram (Except Fault Grant) :=
  match raw with
  | none => .done (.ok { epoch := .initial })
  | some stored =>
      match stored.cipher with
      | none => .done (.ok (readable stored.grant stored.grant.body))
      | some _ => wait .unseal fun opened =>
          .done (.ok (readable stored.grant
            (if opened then stored.grant.body else {})))

/-- A record whose body is stored plainly. -/
def isPlain (raw : Option StoredGrant) : Bool :=
  raw.any fun stored => stored.cipher.isNone && stored.grant.body ≠ {}

/-- `readGrant`: a plain body is sealed in place, if nobody else wrote. -/
def readGrant (provider : Provider) :
    GrantProgram (Except Fault (Option StoredGrant × Grant)) :=
  wait .get fun raw =>
    andThen (openGrant raw) fun grant =>
      if provider.sealer && isPlain raw then
        andThen (encodeGrant provider grant) fun sealedGrant =>
          .ask (.compareAndSet raw sealedGrant .sealing) fun
            | .ok true => .done (.ok (some sealedGrant, grant))
            | .ok false | .error .failed => .done (.ok (raw, grant))
            | .error .aborted => .done (.error .aborted)
      else .done (.ok (raw, grant))

/-- A change of a grant; it leaves the grant as it is where it has none. -/
abbrev Change := Grant → GrantProgram (Except Fault (Option Grant))

structure UpdateOptions where
  epoch : Option Epoch := none
  quiet : Bool := false
  commit : Bool := false

/-- Leave where the caller's signal has aborted, unless the write outlives it. -/
def unlessAborted {Result : Type} (commit : Bool) (left : Result)
    (next : GrantProgram (Except Fault Result)) :
    GrantProgram (Except Fault Result) :=
  if commit then next
  else wait .aborted fun aborted =>
    if aborted then .done (.ok left) else next

/-- `options.epoch ?? (this.epoch ??= grant.epoch)` -/
def UpdateOptions.epochFor (options : UpdateOptions) (provider : Provider)
    (grant : Grant) : Epoch :=
  (options.epoch <|> provider.epoch).getD grant.epoch

/-- The provider once its epoch was asked for. -/
def UpdateOptions.bindEpoch (options : UpdateOptions) (provider : Provider)
    (grant : Grant) : Provider :=
  if options.epoch.isSome then provider
  else { provider with epoch := some (options.epochFor provider grant) }

/-- `updateGrant`, with the attempts left: whether the grant was written or left
as it is, and the provider afterwards. -/
def updateGrant (change : Change) (purpose : Purpose) (options : UpdateOptions) :
    ℕ → Provider → GrantProgram (Except Fault (Bool × Provider))
  | 0, _ => .done (.error .credentialWriteError)
  | attempts + 1, provider =>
      unlessAborted options.commit (false, provider) <|
      andThen (readGrant provider) fun (raw, grant) =>
        let bound := options.bindEpoch provider grant
        if grant.epoch ≠ options.epochFor provider grant then
          if options.quiet || !provider.bound then .done (.ok (false, bound))
          else .done (.error .flowSuperseded)
        else if grant.epoch.isDisconnected then .done (.ok (false, bound))
        else
          andThen (change grant) fun
            | none => .done (.ok (true, bound))
            | some next =>
                andThen (encodeGrant provider next) fun encoded =>
                  unlessAborted options.commit (false, bound) <|
                  .ask (.compareAndSet raw encoded purpose) fun
                    | .error .aborted => .done (.error .aborted)
                    | .error .failed => .done (.error .credentialWriteError)
                    | .ok true => .done (.ok (true,
                        if next.epoch ≠ grant.epoch then
                          { bound with epoch := some next.epoch }
                        else bound))
                    | .ok false =>
                        updateGrant change purpose options attempts bound

/-- `withIssuer`: a body for another server starts an epoch of its own. -/
def withIssuer (provider : Provider) (grant : Grant) (body : GrantBody) :
    GrantProgram (Except Fault Grant) :=
  if grant.body.issuer.isSome && grant.body.issuer ≠ body.issuer then
    if provider.codeExchange then .done (.error .flowSuperseded)
    else wait .randomUUID fun id =>
      .done (.ok { epoch := .active id, body := body })
  else .done (.ok { grant with body := body })

/-- `Number.MAX_SAFE_INTEGER` -/
def maxSafeInteger : ℕ := 2 ^ 53 - 1

/-- `nextTokenGrant` -/
def nextTokenGrant (grant : Grant) (body : GrantBody) : Except Fault Grant :=
  if grant.revision + 1 ≤ maxSafeInteger then
    .ok { grant with
      body := body
      tokenRevision := some (grant.revision + 1)
      observation := none }
  else .error .revisionExhausted

/-- `tokenExpiry` -/
def tokenExpiry (tokens : OAuthTokens) (issuedAt : ℕ) : Option ℕ :=
  tokens.expiresIn.map fun lifetime => issuedAt + lifetime * 1000

/-- The body a value for `issuer` is written into: another server's is dropped. -/
def bodyFor (grant : Grant) (issuer : Option JsString) : GrantBody :=
  if issuer.isSome && grant.body.issuer ≠ issuer then { issuer := issuer }
  else grant.body

def clientChange (provider : Provider) (client : Client)
    (issuer : Option JsString) : Change := fun grant =>
  let body := bodyFor grant issuer
  andThen (withIssuer provider grant
      { body with client := some { value := client, under := body.issuer } })
    fun next => .done (.ok (some next))

/-- The body with newly obtained tokens. -/
def withTokens (body : GrantBody) (tokens : OAuthTokens) (issuedAt : ℕ)
    (consent : Option RefreshConsent) : GrantBody :=
  { body with
    tokens := some { value := tokens, under := body.issuer }
    expiresAt :=
      if (body.tokens.any fun old => old.value.accessToken = tokens.accessToken) &&
          body.expiresAt.isSome then body.expiresAt
      else tokenExpiry tokens issuedAt
    refreshConsent := consent }

def tokensChange (provider : Provider) (tokens : OAuthTokens)
    (issuer : Option JsString) (issuedAt : ℕ) (consent : Option RefreshConsent) :
    Change := fun grant =>
  let body := withTokens (bodyFor grant issuer) tokens issuedAt consent
  andThen (withIssuer provider grant body) fun next =>
    match nextTokenGrant next body with
    | .ok committed => .done (.ok (some committed))
    | .error fault => .done (.error fault)

/-- `saveDiscoveryState` -/
def discoveryChange (provider : Provider) (state : Discovery) : Change :=
  fun grant =>
    let body : GrantBody :=
      if grant.body.issuer ≠ state.issuer then { issuer := state.issuer }
      else grant.body
    andThen (withIssuer provider grant { body with discovery := some state })
      fun next => .done (.ok (some next))

/-- The server a static adapter publishes before its consent. -/
def issuerChange (provider : Provider) (issuer : JsString) : Change :=
  fun grant =>
    if grant.body.issuer = some issuer then .done (.ok none)
    else
      andThen (withIssuer provider grant { issuer := some issuer }) fun next =>
        .done (.ok (some next))

/-- The state digest of a published consent. -/
def flowChange (digest : JsString) : Change := fun grant =>
  .done (.ok (some { grant with flow := some digest }))

inductive InvalidationScope where
  | all
  | client
  | tokens
  | verifier
  | discovery
  deriving DecidableEq

namespace InvalidationScope

def client? : InvalidationScope → Bool
  | .all | .client => true
  | .tokens | .verifier | .discovery => false

def tokens? : InvalidationScope → Bool
  | .all | .tokens => true
  | .client | .verifier | .discovery => false

def discovery? : InvalidationScope → Bool
  | .all | .discovery => true
  | .client | .tokens | .verifier => false

end InvalidationScope

/-- `invalidateCredentials`: only what this flow saw is removed. -/
def invalidationChange (provider : Provider) (scope : InvalidationScope) :
    Change := fun grant =>
  let client := scope.client? && grant.body.client.any fun client =>
    provider.seenClient = some client.value.value
  let tokens := scope.tokens? && grant.body.tokens.any fun tokens =>
    provider.seenTokens = some tokens.value
  let discovery := scope.discovery? && grant.body.discovery.isSome
  if client || tokens || discovery then
    .done (.ok (some { grant with
      body := { grant.body with
        client := if client then none else grant.body.client
        tokens := if tokens then none else grant.body.tokens
        expiresAt := if tokens then none else grant.body.expiresAt
        discovery := if discovery then none else grant.body.discovery } }))
  else .done (.ok none)

/-- The refresh token a grant holds is the one asked about; an absent one is not
the null a caller passes. -/
def holdsRefreshToken (grant : Grant) (requested : Option JsString) : Bool :=
  match requested with
  | none => false
  | some requested =>
      grant.body.tokens.any fun tokens =>
        tokens.value.refreshToken = some requested

/-- `discardRefusedGrant` -/
def refusalChange (refreshToken : Option JsString) : Change := fun grant =>
  if holdsRefreshToken grant refreshToken then
    .done (.ok (some { grant with
      body := { grant.body with tokens := none, expiresAt := none } }))
  else .done (.ok none)

/-- `recordTokenOutcome` -/
def outcomeChange (snapshot : Snapshot) (outcome : TokenOutcome) : Change :=
  fun grant =>
    if grant.epoch ≠ snapshot.epoch || grant.revision ≠ snapshot.revision ||
        grant.body.tokens.isNone then .done (.ok none)
    else if grant.observation =
        some { revision := snapshot.revision, outcome := outcome } then
      .done (.ok none)
    else
      .done (.ok (some { grant with
        observation :=
          some { revision := snapshot.revision, outcome := outcome } }))

/-- `storeRefresh`, with the attempts left: a failed write may have landed, so
the record is read again. -/
def storeRefresh (provider : Provider) (epoch : Epoch)
    (requested : Option JsString) (tokens : OAuthTokens)
    (issuer : Option JsString) (issuedAt : ℕ) :
    ℕ → GrantProgram (Except Fault (Option OAuthTokens))
  | 0 => .done (.error .credentialWriteError)
  | attempts + 1 =>
      readGrant provider >>= fun
        | .error _ =>
            storeRefresh provider epoch requested tokens issuer issuedAt attempts
        | .ok (raw, grant) =>
            if grant.epoch ≠ epoch ||
                (issuer.isSome && grant.body.issuer ≠ issuer) then
              .done (.ok none)
            else if !holdsRefreshToken grant requested then
              .done (.ok (grant.body.tokens.map Written.value))
            else
              let committed :=
                if issuer.isSome then { tokens with issuer := issuer } else tokens
              match nextTokenGrant grant { grant.body with
                  tokens := some { value := committed, under := grant.body.issuer }
                  expiresAt := tokenExpiry committed issuedAt } with
              | .error _ =>
                  storeRefresh provider epoch requested tokens issuer issuedAt
                    attempts
              | .ok next =>
                  encodeGrant provider next >>= fun
                    | .error _ =>
                        storeRefresh provider epoch requested tokens issuer
                          issuedAt attempts
                    | .ok encoded =>
                        .ask (.compareAndSet raw encoded (.refresh epoch)) fun
                          | .ok true => .done (.ok (some committed))
                          | .ok false | .error _ =>
                              storeRefresh provider epoch requested tokens issuer
                                issuedAt attempts

/-- `carriableClient` -/
def carriableClient (provider : Provider) (grant : Grant) (now : ℕ) :
    Option GrantBody :=
  match grant.body.issuer, grant.body.client with
  | some issuer, some client =>
      let value := client.value
      if provider.clientBinding.isNone ||
          value.binding ≠ provider.clientBinding ||
          value.registrationPath = some .cimd ||
          value.registrationPath = some .fixed ||
          (value.registrationPath.isNone &&
            some value.value.clientId = provider.clientMetadataUrl) ||
          provider.configuredClient.isSome ||
          (value.value.clientSecretExpiresAt.any fun expiry =>
            0 < expiry && expiry * 1000 ≤ now) ||
          (value.carried && grant.body.tokens.isNone) then none
      else
        some {
          issuer := some issuer
          client := some { client with value := { value with carried := true } } }
  | _, _ => none

structure ResetOptions where
  operatorDisconnected : Bool
  preserveClient : Bool
  refused : Option (Epoch × ℕ)

/-- The grant a conditional reset was decided from has changed. -/
def ResetOptions.overtaken (options : ResetOptions) (grant : Grant) : Bool :=
  options.refused.any fun refused =>
    grant.epoch ≠ refused.1 || grant.revision ≠ refused.2 ||
      grant.observation.map GrantObservation.outcome ≠ some .refused

/-- The writes of `performReset`, with the attempts left. -/
def replaceEpoch (provider : Provider) (options : ResetOptions) (epoch : Epoch) :
    ℕ → GrantProgram (Except Fault Unit)
  | 0 => .done (.error .credentialWriteError)
  | attempts + 1 =>
      andThen (readGrant provider) fun (raw, grant) =>
        if options.overtaken grant then .done (.ok ())
        else
          wait .now fun now =>
            let carried :=
              if options.preserveClient && !options.operatorDisconnected then
                carriableClient provider grant now
              else none
            andThen (encodeGrant provider
                { epoch := epoch, body := carried.getD {} }) fun encoded =>
              .ask (.compareAndSet raw encoded .reset) fun
                | .error _ => .done (.error .credentialWriteError)
                | .ok true => .done (.ok ())
                | .ok false => replaceEpoch provider options epoch attempts

/-- `performReset` -/
def performReset (provider : Provider) (options : ResetOptions) :
    GrantProgram (Except Fault Unit) :=
  wait .randomUUID fun id =>
    replaceEpoch provider options
      (if options.operatorDisconnected then .disconnected id else .active id)
      maxGrantWrites

end Connecta.GrantStore
