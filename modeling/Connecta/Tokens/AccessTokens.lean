import Connecta.Foundation.Programs
import Connecta.Runtime.Utf16

/-!
# Agent access tokens

Each agent has one slot, and a token admits only while its agent's slot names its
record.  A rotation, a revocation or an adoption commits by one compare-and-set
of the slot, inside a window of time: a storage call still out when the window
closes is abandoned, not cancelled.
-/

namespace Connecta.AccessTokens

open Connecta.Programs
open Connecta.Runtime

/-! ## What is stored -/

abbrev Agent := JsString

/-- A stored text: a value its parser reads, or anything else. -/
inductive Stored (Value : Type) where
  | readable (value : Value)
  | unreadable (text : JsString)
  deriving DecidableEq

/-- `StoredSlot` -/
inductive StoredSlot where
  | issued (tokenId issuedAt : ℕ)
  | revoked (revokedAt : ℕ) (revocationId : Option ℕ)
  deriving DecidableEq

namespace StoredSlot

def isIssued : StoredSlot → Bool
  | .issued _ _ => true
  | .revoked _ _ => false

/-- The record an issued slot names. -/
def tokenId? : StoredSlot → Option ℕ
  | .issued tokenId _ => some tokenId
  | .revoked _ _ => none

end StoredSlot

/-- `StoredAccessToken` -/
structure Record where
  id : ℕ
  name : JsString
  tokenHash : JsString
  tokenPrefix : JsString
  createdAt : ℕ
  createdBy : JsString
  principal : Bool
  agent : Option Agent
  revoked : Bool
  deriving DecidableEq

/-- What the platform computes: `hashToken` and `slotRevision`. -/
structure Digests where
  hashToken : JsString → JsString
  slotRevision : Agent → Option StoredSlot → JsString

/-! ## The operations of the store -/

/-- What a write of a slot is for.  `expect`: the revision its caller named. -/
inductive Purpose where
  | rotation (expect : Option JsString)
  | adoption (legacyId : ℕ) (expect : Option JsString)
  | revocation (expect : Option JsString)
  | compensation
  deriving DecidableEq

inductive TokenOp where
  | getSlot (agent : Agent)
  | getRecord (id : ℕ)
  | getLookup (digest : JsString)
  | getClaim (legacyId : ℕ)
  | setRecord (record : Record)
  | setLookup (digest : JsString) (id : ℕ)
  | swapSlot (agent : Agent) (expected : Option StoredSlot) (next : StoredSlot)
      (purpose : Purpose)
  | moveLookup (digest : JsString) (expected : ℕ) (next : Option ℕ)
  /-- Delete a record that is still as written. -/
  | dropRecord (record : Record)
  /-- Set a claim that is absent. -/
  | setClaim (legacyId : ℕ) (agent : Agent)
  | randomUUID
  /-- A new secret. -/
  | randomToken
  /-- Whether the caller's signal has aborted. -/
  | aborted
  /-- Whether the operation's window is open. -/
  | windowOpen
  | now
  /-- The time a revocation with this id is built at. -/
  | revokedAt (agent : Agent) (revocationId : ℕ)

abbrev TokenAnswer : TokenOp → Type
  | .getSlot _ => Option (Stored StoredSlot)
  | .getRecord _ => Option (Stored Record)
  | .getLookup _ => Option (Stored ℕ)
  | .getClaim _ => Option (Stored Agent)
  | .setRecord _ | .setLookup _ _ => Unit
  | .swapSlot _ _ _ _ | .moveLookup _ _ _ | .dropRecord _ | .setClaim _ _
  | .aborted | .windowOpen => Bool
  | .randomUUID | .now | .revokedAt _ _ => ℕ
  | .randomToken => JsString

/-- Why an answer does not come: the window closed, or the store failed. -/
inductive Loss where
  | unknown
  | failed
  deriving DecidableEq

abbrev TokenProgram (Result : Type) :=
  Program TokenOp TokenAnswer Loss Result

/-- The codes of an `AccessTokenError`, and any other error. -/
inductive TokenFault where
  | unknownAgent
  | conflict
  | slotChanged
  | notAdoptable
  | aborted
  | outcomeUnknown
  | failed
  deriving DecidableEq

def Loss.fault : Loss → TokenFault
  | .unknown => .outcomeUnknown
  | .failed => .failed

/-- `AgentTokenSlot` -/
structure AgentTokenSlot where
  name : Agent
  slot : Option StoredSlot
  revision : JsString
  deriving DecidableEq

inductive Reply where
  | slot (view : AgentTokenSlot)
  | issued (token : JsString) (view : AgentTokenSlot)
  deriving DecidableEq

/-- What a mutation ends with, and the record it made, which nothing reads
back. -/
structure Outcome where
  created : Option ℕ
  result : Except TokenFault Reply

/-! ## Steps of the mutations -/

/-- `slotView` -/
def slotView (digests : Digests) (agent : Agent) (slot : Option StoredSlot) :
    AgentTokenSlot where
  name := agent
  slot := slot
  revision := digests.slotRevision agent slot

/-- `matchesExpected` -/
def matchesExpected (digests : Digests) (agent : Agent)
    (slot : Option StoredSlot) : Option JsString → Bool
  | none => true
  | some expect => digests.slotRevision agent slot = expect

/-- `RECONCILE_ATTEMPTS` -/
def reconcileAttempts : ℕ := 8

def refuse (created : Option ℕ) (fault : TokenFault) : TokenProgram Outcome :=
  .done { created := created, result := .error fault }

/-- `throwIfAborted`, with what an abort leads to. -/
def ifAborted {Result : Type} (left next : TokenProgram Result) :
    TokenProgram Result :=
  .ask .aborted fun
    | .ok false => next
    | .ok true | .error _ => left

/-- Nothing was published: a caller that left hears `aborted`. -/
def undecided (created : Option ℕ) (fault : TokenFault) : TokenProgram Outcome :=
  if fault = .outcomeUnknown then
    ifAborted (refuse created .aborted) (refuse created .outcomeUnknown)
  else refuse created fault

/-- `OperationWindow.settle` -/
def settle (created : Option ℕ) (reply : Reply) : TokenProgram Outcome :=
  .ask .windowOpen fun
    | .ok true => .done { created := created, result := .ok reply }
    | .ok false | .error _ => refuse created .outcomeUnknown

/-- `readSlot`: a slot that cannot be parsed is an error. -/
def readSlot (agent : Agent) : TokenProgram (Except Loss (Option StoredSlot)) :=
  .ask (.getSlot agent) fun
    | .error loss => .done (.error loss)
    | .ok none => .done (.ok none)
    | .ok (some (.readable slot)) => .done (.ok (some slot))
    | .ok (some (.unreadable _)) => .done (.error .failed)

/-- `read` -/
def read (id : ℕ) : TokenProgram (Except Loss (Option Record)) :=
  .ask (.getRecord id) fun
    | .error loss => .done (.error loss)
    | .ok none => .done (.ok none)
    | .ok (some (.readable record)) =>
        if record.id = id then .done (.ok (some record))
        else .done (.error .failed)
    | .ok (some (.unreadable _)) => .done (.error .failed)

def issuedSlot (slot : Option StoredSlot) : Bool :=
  slot.any StoredSlot.isIssued

/-- Whether a slot names a record. -/
def namesToken (slot : Option StoredSlot) (tokenId : ℕ) : Bool :=
  slot.bind StoredSlot.tokenId? = some tokenId

/-- `slotNames`, with the attempts left. -/
def slotNames (agent : Agent) (tokenId : ℕ) :
    ℕ → TokenProgram (Except Loss Bool)
  | 0 => .done (.error .unknown)
  | attempts + 1 =>
      .ask .windowOpen fun
        | .ok false | .error _ => .done (.error .unknown)
        | .ok true => readSlot agent >>= fun
            | .error .unknown => .done (.error .unknown)
            | .error .failed => slotNames agent tokenId attempts
            | .ok slot => .done (.ok (namesToken slot tokenId))

/-- The attempts of `revokeIfNamed`. -/
def revokeNamed (agent : Agent) (tokenId revocationId : ℕ) :
    ℕ → TokenProgram (Except Loss Unit)
  | 0 => .done (.error .unknown)
  | attempts + 1 =>
      .ask .windowOpen fun
        | .ok false | .error _ => .done (.error .unknown)
        | .ok true => readSlot agent >>= fun
            | .error .unknown => .done (.error .unknown)
            | .error .failed => revokeNamed agent tokenId revocationId attempts
            | .ok slot =>
                if !namesToken slot tokenId then .done (.ok ())
                else .ask (.revokedAt agent revocationId) fun
                  | .error _ => .done (.error .unknown)
                  | .ok time =>
                      .ask (.swapSlot agent slot
                          (.revoked time (some revocationId)) .compensation) fun
                        | .ok true => .done (.ok ())
                        | .error .unknown => .done (.error .unknown)
                        | .ok false | .error .failed =>
                            revokeNamed agent tokenId revocationId attempts

/-- `revokeIfNamed` -/
def revokeIfNamed (agent : Agent) (tokenId : ℕ) :
    TokenProgram (Except Loss Unit) :=
  .ask .randomUUID fun
    | .error loss => .done (.error loss)
    | .ok revocationId =>
        revokeNamed agent tokenId revocationId reconcileAttempts

/-! ## Rotation -/

/-- This call's own lookup and record, while known to be uncommitted. -/
def discard (record : Record) (next : TokenProgram Outcome) :
    TokenProgram Outcome :=
  .ask (.moveLookup record.tokenHash record.id none) fun _ =>
    .ask (.dropRecord record) fun _ => next

/-- The record and lookup of a rotation, inert until the slot names them. -/
def writeRotation (record : Record) : TokenProgram (Except TokenFault Unit) :=
  .ask (.getLookup record.tokenHash) fun
    | .error loss => .done (.error loss.fault)
    | .ok (some _) => .done (.error .conflict)
    | .ok none =>
        ifAborted (.done (.error .aborted)) <|
        .ask (.setRecord record) fun
          | .error loss => .done (.error loss.fault)
          | .ok _ => .ask (.setLookup record.tokenHash record.id) fun
              | .error loss => .done (.error loss.fault)
              | .ok _ => ifAborted (.done (.error .aborted)) (.done (.ok ()))

/-- A committed rotation returns its secret, or is revoked where the response
cannot carry it. -/
def deliverRotation (digests : Digests) (agent : Agent) (token : JsString)
    (record : Record) : TokenProgram Outcome :=
  .ask .aborted fun
    | .error loss => refuse (some record.id) loss.fault
    | .ok false =>
        settle (some record.id) (.issued token
          (slotView digests agent (some (.issued record.id record.createdAt))))
    | .ok true =>
        revokeIfNamed agent record.id >>= fun
          | .error loss => refuse (some record.id) loss.fault
          | .ok _ => refuse (some record.id) .aborted

/-- The commit of a rotation.  An unanswered one is read back. -/
def commitRotation (digests : Digests) (agent : Agent)
    (slot : Option StoredSlot) (expect : Option JsString) (token : JsString)
    (record : Record) : TokenProgram Outcome :=
  .ask (.swapSlot agent slot (.issued record.id record.createdAt)
      (.rotation expect)) fun
    | .error .unknown => refuse (some record.id) .outcomeUnknown
    | .error .failed => slotNames agent record.id reconcileAttempts >>= fun
        | .error loss => refuse (some record.id) loss.fault
        | .ok false => refuse (some record.id) .failed
        | .ok true => deliverRotation digests agent token record
    | .ok true => deliverRotation digests agent token record
    | .ok false =>
        discard record (refuse (some record.id)
          (if expect.isSome then .slotChanged else .conflict))

/-- A newly minted record of an agent. -/
def rotationRecord (digests : Digests) (agent : Agent) (issuedBy token : JsString)
    (id createdAt : ℕ) : Record where
  id := id
  name := agent
  tokenHash := digests.hashToken token
  tokenPrefix := token.take 12
  createdAt := createdAt
  createdBy := issuedBy
  principal := false
  agent := some agent
  revoked := false

def publishRotation (digests : Digests) (agent : Agent)
    (slot : Option StoredSlot) (expect : Option JsString) (token : JsString)
    (record : Record) : TokenProgram Outcome :=
  writeRotation record >>= fun
    | .error fault => discard record (undecided (some record.id) fault)
    | .ok _ => commitRotation digests agent slot expect token record

/-- `rotate` -/
def rotate (digests : Digests) (agents : List Agent) (agent : Agent)
    (issuedBy : JsString) (expect : Option JsString) : TokenProgram Outcome :=
  ifAborted (refuse none .aborted) <|
  if agent ∉ agents then refuse none .unknownAgent
  else readSlot agent >>= fun
    | .error loss => undecided none loss.fault
    | .ok slot =>
        if !matchesExpected digests agent slot expect then
          refuse none .slotChanged
        else .ask .randomToken fun
          | .error loss => refuse none loss.fault
          | .ok token => .ask .randomUUID fun
              | .error loss => refuse none loss.fault
              | .ok id => .ask .now fun
                  | .error loss => refuse (some id) loss.fault
                  | .ok createdAt =>
                      publishRotation digests agent slot expect token
                        (rotationRecord digests agent issuedBy token id
                          createdAt)

/-! ## Revocation -/

/-- Whatever the slot names by now is revoked, with the attempts left. -/
def revokeCurrent (digests : Digests) (agent : Agent) (revocationId : ℕ) :
    ℕ → TokenProgram Outcome
  | 0 => refuse none .outcomeUnknown
  | attempts + 1 =>
      .ask .windowOpen fun
        | .ok false | .error _ => refuse none .outcomeUnknown
        | .ok true => readSlot agent >>= fun
            | .error .unknown => refuse none .outcomeUnknown
            | .error .failed => revokeCurrent digests agent revocationId attempts
            | .ok slot =>
                if !issuedSlot slot then
                  settle none (.slot (slotView digests agent slot))
                else .ask (.revokedAt agent revocationId) fun
                  | .error loss => refuse none loss.fault
                  | .ok time =>
                      let next := .revoked time (some revocationId)
                      .ask (.swapSlot agent slot next (.revocation none)) fun
                        | .ok true => settle none
                            (.slot (slotView digests agent (some next)))
                        | .error .unknown => refuse none .outcomeUnknown
                        | .ok false | .error .failed =>
                            revokeCurrent digests agent revocationId attempts

/-- Whether a slot carries a call's own revocation. -/
def carriesRevocation (slot : Option StoredSlot) (revocationId : ℕ) : Bool :=
  slot.any fun
    | .issued _ _ => false
    | .revoked _ carried => carried = some revocationId

/-- `settleRevocation`, with the attempts left. -/
def settleRevocation (digests : Digests) (agent : Agent)
    (slot : Option StoredSlot) (expect : Option JsString) (revocationId : ℕ) :
    ℕ → TokenProgram Outcome
  | 0 => refuse none .outcomeUnknown
  | attempts + 1 =>
      .ask .windowOpen fun
        | .ok false | .error _ => refuse none .outcomeUnknown
        | .ok true => readSlot agent >>= fun
            | .error .unknown => refuse none .outcomeUnknown
            | .error .failed =>
                settleRevocation digests agent slot expect revocationId attempts
            | .ok current =>
                if carriesRevocation current revocationId then
                  settle none (.slot (slotView digests agent current))
                else if current ≠ slot then refuse none .slotChanged
                else .ask (.revokedAt agent revocationId) fun
                  | .error loss => refuse none loss.fault
                  | .ok time =>
                      let next := .revoked time (some revocationId)
                      .ask (.swapSlot agent slot next (.revocation expect)) fun
                        | .ok true => settle none
                            (.slot (slotView digests agent (some next)))
                        | .error .unknown => refuse none .outcomeUnknown
                        | .ok false | .error .failed =>
                            settleRevocation digests agent slot expect
                              revocationId attempts

/-- The first commit of a revocation. -/
def commitRevocation (digests : Digests) (agent : Agent)
    (slot : Option StoredSlot) (expect : Option JsString)
    (revocationId time : ℕ) : TokenProgram Outcome :=
  let next := .revoked time (some revocationId)
  .ask (.swapSlot agent slot next (.revocation expect)) fun
    | .error .unknown => refuse none .outcomeUnknown
    | .error .failed =>
        if expect.isSome then
          settleRevocation digests agent slot expect revocationId
            reconcileAttempts
        else revokeCurrent digests agent revocationId reconcileAttempts
    | .ok true => settle none (.slot (slotView digests agent (some next)))
    | .ok false =>
        if expect.isSome then refuse none .slotChanged
        else revokeCurrent digests agent revocationId reconcileAttempts

/-- `revoke` -/
def revoke (digests : Digests) (agents : List Agent) (agent : Agent)
    (expect : Option JsString) : TokenProgram Outcome :=
  ifAborted (refuse none .aborted) <|
  if agent ∉ agents then refuse none .unknownAgent
  else readSlot agent >>= fun
    | .error loss => undecided none loss.fault
    | .ok slot =>
        if !matchesExpected digests agent slot expect then
          refuse none .slotChanged
        else if !issuedSlot slot then
          settle none (.slot (slotView digests agent slot))
        else
          ifAborted (refuse none .aborted) <|
          .ask .randomUUID fun
            | .error loss => refuse none loss.fault
            | .ok revocationId => .ask (.revokedAt agent revocationId) fun
                | .error loss => refuse none loss.fault
                | .ok time =>
                    commitRevocation digests agent slot expect revocationId time

/-! ## Adoption -/

/-- `completeAdoption`, with the attempts left: the digest's lookup is moved from
the legacy record to the one the slot names. -/
def completeAdoption (digests : Digests) (agent : Agent) (tokenId issuedAt : ℕ)
    (legacy : Record) : ℕ → TokenProgram (Except TokenFault AgentTokenSlot)
  | 0 => .done (.error .outcomeUnknown)
  | attempts + 1 =>
      .ask .windowOpen fun
        | .ok false | .error _ => .done (.error .outcomeUnknown)
        | .ok true => .ask (.getLookup legacy.tokenHash) fun
            | .error .unknown => .done (.error .outcomeUnknown)
            | .error .failed =>
                completeAdoption digests agent tokenId issuedAt legacy attempts
            | .ok current =>
                if current = some (.readable tokenId) then
                  .done (.ok (slotView digests agent
                    (some (.issued tokenId issuedAt))))
                else if current ≠ some (.readable legacy.id) then
                  revokeIfNamed agent tokenId >>= fun
                    | .error _ => .done (.error .outcomeUnknown)
                    | .ok _ => .done (.error .conflict)
                else .ask (.moveLookup legacy.tokenHash legacy.id
                    (some tokenId)) fun
                  | .ok true => .done (.ok (slotView digests agent
                      (some (.issued tokenId issuedAt))))
                  | .error .unknown => .done (.error .outcomeUnknown)
                  | .ok false | .error .failed =>
                      completeAdoption digests agent tokenId issuedAt legacy
                        attempts

/-- Whether a slot names a record with a digest. -/
def carries (slot : Option StoredSlot) (digest : JsString) :
    TokenProgram (Except Loss Bool) :=
  match slot with
  | some (.issued tokenId _) => read tokenId >>= fun
      | .error loss => .done (.error loss)
      | .ok record => .done (.ok (record.any fun record =>
          record.tokenHash = digest))
  | some (.revoked _ _) | none => .done (.ok false)

/-- `agentCarrying`, over the agents left. -/
def agentCarrying (digest : JsString) :
    List Agent → TokenProgram (Except Loss (Option Agent))
  | [] => .done (.ok none)
  | name :: rest => readSlot name >>= fun
      | .error loss => .done (.error loss)
      | .ok slot => carries slot digest >>= fun
          | .error loss => .done (.error loss)
          | .ok true => .done (.ok (some name))
          | .ok false => agentCarrying digest rest

/-- Complete an adoption and report its slot. -/
def finishAdoption (digests : Digests) (agent : Agent) (tokenId issuedAt : ℕ)
    (legacy : Record) (next : Except TokenFault AgentTokenSlot →
      TokenProgram Outcome) : TokenProgram Outcome :=
  completeAdoption digests agent tokenId issuedAt legacy reconcileAttempts >>=
    next

def settleAdoption (created : Option ℕ) :
    Except TokenFault AgentTokenSlot → TokenProgram Outcome
  | .ok view => settle created (.slot view)
  | .error fault => refuse created fault

/-- The record of an adoption. -/
def adoptionRecord (agent : Agent) (legacy : Record) (id createdAt : ℕ) :
    Record where
  id := id
  name := agent
  tokenHash := legacy.tokenHash
  tokenPrefix := legacy.tokenPrefix
  createdAt := createdAt
  createdBy := JsString.ofAscii "adoption"
  principal := false
  agent := some agent
  revoked := false

/-- Someone else committed first: a concurrent adoption of the same token by
this agent is completed, and anything else refused. -/
def afterLostAdoption (digests : Digests) (agent : Agent)
    (expect : Option JsString) (legacy record : Record) : TokenProgram Outcome :=
  .ask (.dropRecord record) fun _ =>
    if expect.isSome then refuse (some record.id) .slotChanged
    else readSlot agent >>= fun
      | .error loss => refuse (some record.id) loss.fault
      | .ok slot => carries slot legacy.tokenHash >>= fun
          | .error loss => refuse (some record.id) loss.fault
          | .ok same =>
              match slot, same with
              | some (.issued tokenId issuedAt), true =>
                  finishAdoption digests agent tokenId issuedAt legacy
                    (settleAdoption (some record.id))
              | _, _ => refuse (some record.id) .conflict

/-- The commit of an adoption. -/
def commitAdoption (digests : Digests) (agent : Agent)
    (expect : Option JsString) (legacy record : Record) : TokenProgram Outcome :=
  .ask (.swapSlot agent none (.issued record.id legacy.createdAt)
      (.adoption legacy.id expect)) fun
    | .error .unknown => refuse (some record.id) .outcomeUnknown
    | .error .failed => slotNames agent record.id reconcileAttempts >>= fun
        | .error loss => refuse (some record.id) loss.fault
        | .ok false => refuse (some record.id) .failed
        | .ok true => finishAdoption digests agent record.id legacy.createdAt
            legacy (settleAdoption (some record.id))
    | .ok true => finishAdoption digests agent record.id legacy.createdAt legacy
        (settleAdoption (some record.id))
    | .ok false => afterLostAdoption digests agent expect legacy record

/-- The new record of an adoption is written, inert, and then committed. -/
def publishAdoption (digests : Digests) (agent : Agent)
    (expect : Option JsString) (legacy : Record) : TokenProgram Outcome :=
  .ask .randomUUID fun
    | .error loss => refuse none loss.fault
    | .ok id => .ask .now fun
        | .error loss => refuse (some id) loss.fault
        | .ok createdAt =>
            let record := adoptionRecord agent legacy id createdAt
            .ask (.setRecord record) fun
              | .error loss => .ask (.dropRecord record) fun _ =>
                  undecided (some id) loss.fault
              | .ok _ =>
                  ifAborted
                    (.ask (.dropRecord record) fun _ => refuse (some id) .aborted)
                    (commitAdoption digests agent expect legacy record)

/-- The write-once claim.  While its answer is out an abort is not reported. -/
def claimLegacy (agent : Agent) (legacy : Record)
    (next : TokenProgram Outcome) : TokenProgram Outcome :=
  .ask (.setClaim legacy.id agent) fun
    | .error loss => refuse none loss.fault
    | .ok true => next
    | .ok false => .ask (.getClaim legacy.id) fun
        | .error loss => refuse none loss.fault
        | .ok claim =>
            if claim = some (.readable agent) then next
            else refuse none .notAdoptable

/-- An agent without a slot takes the legacy token. -/
def takeLegacy (digests : Digests) (agents : List Agent) (agent : Agent)
    (expect : Option JsString) (legacy : Record)
    (claim : Option (Stored Agent)) : TokenProgram Outcome :=
  .ask (.getLookup legacy.tokenHash) fun
    | .error loss => undecided none loss.fault
    | .ok lookup =>
        if lookup ≠ some (.readable legacy.id) then refuse none .notAdoptable
        else agentCarrying legacy.tokenHash agents >>= fun
          | .error loss => undecided none loss.fault
          | .ok (some _) => refuse none .notAdoptable
          | .ok none =>
              ifAborted (refuse none .aborted) <|
              match claim with
              | none => claimLegacy agent legacy
                  (publishAdoption digests agent expect legacy)
              | some _ => publishAdoption digests agent expect legacy

/-- The slot of the agent that asks: none is taken, its own adoption completed,
and anything else refused. -/
def adoptInto (digests : Digests) (agents : List Agent) (agent : Agent)
    (expect : Option JsString) (legacy : Record)
    (claim : Option (Stored Agent)) : TokenProgram Outcome :=
  readSlot agent >>= fun
    | .error loss => undecided none loss.fault
    | .ok slot =>
        if !matchesExpected digests agent slot expect then
          refuse none .slotChanged
        else
          match slot with
          | none => takeLegacy digests agents agent expect legacy claim
          | some (.revoked _ _) => refuse none .notAdoptable
          | some (.issued tokenId issuedAt) =>
              carries slot legacy.tokenHash >>= fun
                | .error loss => undecided none loss.fault
                | .ok false => refuse none .notAdoptable
                | .ok true =>
                    finishAdoption digests agent tokenId issuedAt legacy fun
                      | .error fault => undecided none fault
                      | .ok view => .ask .windowOpen fun
                          | .ok true => .done {
                              created := none
                              result := .ok (.slot view) }
                          | .ok false | .error _ =>
                              undecided none .outcomeUnknown

/-- `adopt` -/
def adopt (digests : Digests) (agents : List Agent) (tokenId : Option ℕ)
    (agent : Agent) (expect : Option JsString) : TokenProgram Outcome :=
  ifAborted (refuse none .aborted) <|
  if agent ∉ agents then refuse none .unknownAgent
  else
    match tokenId with
    | none => refuse none .notAdoptable
    | some tokenId => read tokenId >>= fun
        | .error loss => undecided none loss.fault
        | .ok none => refuse none .notAdoptable
        | .ok (some legacy) =>
            if legacy.agent.isSome || legacy.principal || legacy.revoked then
              refuse none .notAdoptable
            else .ask (.getClaim legacy.id) fun
              | .error loss => undecided none loss.fault
              | .ok claim =>
                  if claim ≠ none ∧ claim ≠ some (.readable agent) then
                    refuse none .notAdoptable
                  else adoptInto digests agents agent expect legacy claim

/-! ## Admission -/

/-- A character of base64url. -/
def tokenUnit (unit : CodeUnit) : Bool :=
  (0x41 ≤ unit && unit ≤ 0x5A) || (0x61 ≤ unit && unit ≤ 0x7A) ||
    (0x30 ≤ unit && unit ≤ 0x39) || unit = 0x2D || unit = 0x5F

/-- `TOKEN_VALUE_RE` -/
def tokenShape (token : JsString) : Bool :=
  token.take 4 = JsString.ofAscii "cta_" && token.length = 47 &&
    (token.drop 4).all tokenUnit

/-- `authorize`: the agent a secret admits as. -/
def authorize (digests : Digests) (agents : List Agent) (token : JsString) :
    TokenProgram (Option Agent) :=
  if !tokenShape token then .done none
  else .ask (.getLookup (digests.hashToken token)) fun
    | .ok (some (.readable id)) => read id >>= fun
        | .ok (some record) =>
            if record.revoked || record.tokenHash ≠ digests.hashToken token ||
                record.tokenPrefix ≠ token.take 12 || record.principal then
              .done none
            else
              match record.agent with
              | none => .done none
              | some agent =>
                  if agent ∉ agents then .done none
                  else readSlot agent >>= fun
                    | .ok slot =>
                        if namesToken slot record.id then .done (some agent)
                        else .done none
                    | .error _ => .done none
        | .ok none | .error _ => .done none
    | .ok _ | .error _ => .done none

end Connecta.AccessTokens
