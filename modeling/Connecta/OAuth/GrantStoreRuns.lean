import Connecta.OAuth.GrantMethods

/-!
# Every run of the grant store

Any number of providers call the grant methods, in any order.  An answer may be
lost, and an operation that was left out may still reach the store later.
-/

namespace Connecta.GrantStore

open Connecta.Programs
open Connecta.Runtime

/-! ## The calls -/

inductive GrantCall where
  | read (provider : Provider)
  | saveClientInformation (provider : Provider) (client : Client)
      (issuer : Option JsString)
  | saveTokens (provider : Provider) (tokens : OAuthTokens)
      (issuer : Option JsString) (issuedAt : ℕ) (consent : Option RefreshConsent)
  | saveDiscoveryState (provider : Provider) (state : Discovery)
  | publishIssuer (provider : Provider) (issuer : JsString)
  | publishFlow (provider : Provider) (digest : JsString) (epoch : Option Epoch)
  | invalidateCredentials (provider : Provider) (scope : InvalidationScope)
  | discardRefusedGrant (provider : Provider) (refreshToken : Option JsString)
      (epoch : Epoch)
  | storeRefresh (provider : Provider) (epoch : Epoch)
      (requested : Option JsString) (tokens : OAuthTokens)
      (issuer : Option JsString) (issuedAt : ℕ)
  | recordTokenOutcome (provider : Provider) (snapshot : Snapshot)
      (outcome : TokenOutcome)
  | performReset (provider : Provider) (options : ResetOptions)

/-- A method whose result is not looked at. -/
def finished {Result : Type} (method : GrantProgram (Except Fault Result)) :
    GrantProgram (Except Fault Unit) :=
  andThen method fun _ => .done (.ok ())

def written (provider : Provider) (change : Change) (purpose : Purpose)
    (options : UpdateOptions) : GrantProgram (Except Fault Unit) :=
  finished (updateGrant change purpose options maxGrantWrites provider)

def grantCall : GrantCall → GrantProgram (Except Fault Unit)
  | .read provider => finished (readGrant provider)
  | .saveClientInformation provider client issuer =>
      written provider (clientChange provider client issuer) .client {}
  | .saveTokens provider tokens issuer issuedAt consent =>
      written provider (tokensChange provider tokens issuer issuedAt consent)
        (.tokens provider.epoch provider.codeExchange) {}
  | .saveDiscoveryState provider state =>
      written provider (discoveryChange provider state) .discovery {}
  | .publishIssuer provider issuer =>
      written provider (issuerChange provider issuer) .issuer {}
  | .publishFlow provider digest epoch =>
      written provider (flowChange digest) .flow { epoch := epoch }
  | .invalidateCredentials provider scope =>
      written provider (invalidationChange provider scope) .invalidation
        { quiet := true }
  | .discardRefusedGrant provider refreshToken epoch =>
      written provider (refusalChange refreshToken) .refusal
        { epoch := some epoch, quiet := true, commit := true }
  | .storeRefresh provider epoch requested tokens issuer issuedAt =>
      finished (storeRefresh provider epoch requested tokens issuer issuedAt
        maxGrantWrites)
  | .recordTokenOutcome provider snapshot outcome =>
      written provider (outcomeChange snapshot outcome)
        (.outcome snapshot outcome)
        { epoch := some snapshot.epoch, quiet := true }
  | .performReset provider options => performReset provider options

/-- An outcome is recorded for a snapshot that was taken. -/
def grantStarts : GrantCall → World → Prop
  | .recordTokenOutcome _ snapshot _, world => Taken world snapshot
  | _, _ => True

def grantService : Service World GrantOp GrantAnswer Interruption where
  Call := GrantCall
  Result := Except Fault Unit
  starts := grantStarts
  program := grantCall
  promise := fun _ _ _ => True

section Calls

variable {held : Set ℕ} {world : World}

theorem finished_safe {Result : Type}
    {post : Result → Set ℕ → World → Prop}
    {method : GrantProgram (Except Fault Result)}
    (hheld : grantDiscipline.Held held world)
    (hmethod : Safe grantDiscipline (Returning post) method ∅ world) :
    Safe grantDiscipline (Lawfully Unit) (finished method) held world :=
  andThen_safe hheld hmethod fun _ _ _ _ _ _ => lawfully_done _

theorem written_safe {provider : Provider} {change : Change} {purpose : Purpose}
    {options : UpdateOptions} (hoffers : Offers purpose change)
    (hbegun : ∀ begun, purpose.begun = some begun →
      (options.epoch <|> provider.epoch) = some begun)
    (hfounded : Founded world purpose)
    (hheld : grantDiscipline.Held ∅ world) :
    Safe grantDiscipline (Lawfully Unit) (written provider change purpose options)
      ∅ world :=
  finished_safe hheld (updateGrant_safe hoffers options maxGrantWrites provider
    hbegun hfounded hheld)

theorem grantCall_safe (call : GrantCall)
    (hheld : grantDiscipline.Held ∅ world) (hstarts : grantStarts call world) :
    Safe grantDiscipline (Lawfully Unit) (grantCall call) ∅ world := by
  cases call with
  | read provider => exact finished_safe hheld (readGrant_safe provider)
  | saveClientInformation provider client issuer =>
      exact written_safe (clientChange_offers provider client issuer) nofun nofun
        hheld
  | saveTokens provider tokens issuer issuedAt consent =>
      refine written_safe
        (tokensChange_offers provider tokens issuer issuedAt consent) ?_ nofun
        hheld
      intro begun hbegun
      exact hbegun
  | saveDiscoveryState provider state =>
      exact written_safe (discoveryChange_offers provider state) nofun nofun hheld
  | publishIssuer provider issuer =>
      exact written_safe (issuerChange_offers provider issuer) nofun nofun hheld
  | publishFlow provider digest epoch =>
      exact written_safe (flowChange_offers digest) nofun nofun hheld
  | invalidateCredentials provider scope =>
      exact written_safe (invalidationChange_offers provider scope) nofun nofun
        hheld
  | discardRefusedGrant provider refreshToken epoch =>
      exact written_safe (refusalChange_offers refreshToken) nofun nofun hheld
  | storeRefresh provider epoch requested tokens issuer issuedAt =>
      exact finished_safe hheld (storeRefresh_safe provider epoch requested tokens
        issuer issuedAt maxGrantWrites hheld)
  | recordTokenOutcome provider snapshot outcome =>
      refine written_safe (outcomeChange_offers snapshot outcome) nofun ?_ hheld
      intro other result hpurpose
      cases hpurpose
      exact hstarts
  | performReset provider options => exact performReset_safe provider options

end Calls

theorem grant_disciplined : Disciplined grantDiscipline grantService where
  turn := fun _ _ _ hturn => hturn.elim
  safe := fun call _ hheld hstarts =>
    (grantCall_safe call hheld hstarts).weaken fun _ _ _ _ _ => trivial

/-! ## What a lawful write preserves -/

/-- A later record of an epoch has no smaller revision, and at the same revision
no other tokens. -/
structure Follows (earlier later : Grant) : Prop where
  revision : earlier.revision ≤ later.revision
  tokens : earlier.revision = later.revision → ∀ tokens,
    later.body.tokens = some tokens → earlier.body.tokens = some tokens

theorem Follows.trans {first second third : Grant} (hfirst : Follows first second)
    (hsecond : Follows second third) : Follows first third where
  revision := hfirst.revision.trans hsecond.revision
  tokens := by
    intro hsame tokens htokens
    have hmiddle : second.revision = third.revision :=
      le_antisymm hsecond.revision (hsame ▸ hfirst.revision)
    exact hfirst.tokens (hsame.trans hmiddle.symm) tokens
      (hsecond.tokens hmiddle tokens htokens)

/-- Tokens that were read are the stored ones. -/
theorem Opened.tokens {stored grant : Grant} {tokens : Written OAuthTokens}
    (hopened : Opened stored grant) (htokens : grant.body.tokens = some tokens) :
    stored.body.tokens = some tokens := by
  rcases hopened.body with hbody | hbody
  · rwa [hbody] at htokens
  · rw [hbody] at htokens
    cases htokens

theorem Stays.follows {purpose : Purpose} {stored grant next : Grant}
    (hopened : Opened stored grant) (hstays : Stays purpose grant next) :
    Follows stored next := by
  cases hobtains : purpose.obtains with
  | true =>
      have hless := (hstays.obtained hobtains).1
      rw [hopened.revision] at hless
      exact ⟨hless.le, fun hsame => absurd hsame hless.ne⟩
  | false =>
      obtain ⟨hrevision, hkept⟩ := hstays.kept hobtains
      rw [hopened.revision] at hrevision
      refine ⟨hrevision.ge, fun _ tokens htokens => ?_⟩
      rcases hkept with hnone | hsame
      · cases hnone.symm.trans htokens
      · exact hopened.tokens (hsame.symm.trans htokens)

section Lawful

variable {world : World} {commit : Commit} (hlawful : Lawful world commit)

include hlawful

/-- A write stays in the epoch, or its epoch was never seen. -/
theorem Lawful.same_or_fresh :
    commit.stored.grant.epoch = (contents commit.replaced).epoch ∨
      ∀ raw, Seen world raw →
        commit.stored.grant.epoch ≠ (contents raw).epoch := by
  obtain ⟨grant, hopened, hallowed⟩ := hlawful.allowed
  rcases hallowed.epoch with hstays | hmoves
  · exact .inl (hstays.epoch.trans hopened.epoch)
  · obtain ⟨id, hfresh, hid⟩ := hmoves.id
    refine .inr fun raw hseen hsame => hfresh (hseen.spent ?_)
    rw [← hsame]
    exact hid

theorem Lawful.follows (hseen : Seen world commit.replaced)
    (hsame : commit.stored.grant.epoch = (contents commit.replaced).epoch) :
    Follows (contents commit.replaced) commit.stored.grant := by
  obtain ⟨grant, hopened, hallowed⟩ := hlawful.allowed
  rcases hallowed.epoch with hstays | hmoves
  · exact hstays.follows hopened
  · obtain ⟨id, hfresh, hid⟩ := hmoves.id
    exact absurd (hseen.spent (hsame ▸ hid)) hfresh

theorem Lawful.increases (hseen : Seen world commit.replaced)
    (hobtains : commit.purpose.obtains = true)
    (hsame : commit.stored.grant.epoch = (contents commit.replaced).epoch) :
    (contents commit.replaced).revision < commit.stored.grant.revision := by
  obtain ⟨grant, hopened, hallowed⟩ := hlawful.allowed
  rcases hallowed.epoch with hstays | hmoves
  · rw [← hopened.revision]
    exact (hstays.obtained hobtains).1
  · obtain ⟨id, hfresh, hid⟩ := hmoves.id
    exact absurd (hseen.spent (hsame ▸ hid)) hfresh

theorem Lawful.bound (hbound : Bound (contents commit.replaced).body) :
    Bound commit.stored.grant.body := by
  obtain ⟨grant, hopened, hallowed⟩ := hlawful.allowed
  exact hallowed.bound (hopened.bound hbound)

theorem Lawful.vacant
    (hvacant : (contents commit.replaced).epoch.isDisconnected = true →
      Vacant (contents commit.replaced).body)
    (hdisconnected : commit.stored.grant.epoch.isDisconnected = true) :
    Vacant commit.stored.grant.body := by
  obtain ⟨grant, hopened, hallowed⟩ := hlawful.allowed
  refine hallowed.disconnected hdisconnected fun hsame => ?_
  refine hopened.vacant (hvacant ?_)
  rw [← hopened.epoch, ← hsame]
  exact hdisconnected

end Lawful

/-! ## The record and its past -/

/-- A write that ends an epoch. -/
def Commit.Ends (commit : Commit) : Prop :=
  (contents commit.replaced).epoch ≠ commit.stored.grant.epoch

/-- An outcome recorded with a snapshot of these tokens. -/
def Attested (world : World) (epoch : Epoch) (observation : GrantObservation)
    (tokens : OAuthTokens) : Prop :=
  ∃ commit ∈ world.log, ∃ snapshot,
    commit.purpose = .outcome snapshot observation.outcome ∧
      snapshot.epoch = epoch ∧ snapshot.revision = observation.revision ∧
      snapshot.tokens = tokens ∧ Taken world snapshot

/-- What holds of the record, given all that was written before. -/
structure Upheld (world : World) : Prop where
  seen : Seen world world.cell
  replaced : ∀ commit ∈ world.log, Seen world commit.replaced
  bound : Bound (contents world.cell).body
  vacant : (contents world.cell).epoch.isDisconnected = true →
    Vacant (contents world.cell).body
  live : ∀ commit ∈ world.log, commit.Ends →
    (contents world.cell).epoch ≠ (contents commit.replaced).epoch
  follows : ∀ commit ∈ world.log,
    commit.stored.grant.epoch = (contents world.cell).epoch →
      Follows commit.stored.grant (contents world.cell)
  attested : ∀ observation tokens,
    (contents world.cell).observation = some observation →
    observation.revision = (contents world.cell).revision →
    (contents world.cell).body.tokens = some tokens →
      Attested world (contents world.cell).epoch observation tokens.value

theorem upheld_empty : Upheld World.empty where
  seen := .inl rfl
  replaced := fun _ hcommit => absurd hcommit List.not_mem_nil
  bound := bound_empty none
  vacant := fun hdisconnected => nomatch hdisconnected
  live := fun _ hcommit => absurd hcommit List.not_mem_nil
  follows := fun _ hcommit => absurd hcommit List.not_mem_nil
  attested := fun _ _ hobservation => nomatch hobservation

section Step

variable {world : World} {commit : Commit} (hupheld : Upheld world)
variable (hlawful : Lawful world commit)

include hupheld hlawful

theorem Upheld.live_write : ∀ past ∈ world.log ++ [commit], past.Ends →
    commit.stored.grant.epoch ≠ (contents past.replaced).epoch := by
  intro past hpast hends
  rcases List.mem_append.mp hpast with hbefore | hnew
  · rcases hlawful.same_or_fresh with hsame | hfresh
    · rw [hsame, ← hlawful.replaced]
      exact hupheld.live past hbefore hends
    · exact hfresh _ (hupheld.replaced past hbefore)
  · cases List.mem_singleton.mp hnew
    exact hends.symm

theorem Upheld.follows_write : ∀ past ∈ world.log ++ [commit],
    past.stored.grant.epoch = commit.stored.grant.epoch →
      Follows past.stored.grant commit.stored.grant := by
  intro past hpast hepoch
  rcases List.mem_append.mp hpast with hbefore | hnew
  · have hseen := hlawful.replaced ▸ hupheld.seen
    rcases hlawful.same_or_fresh with hsame | hfresh
    · have hfollows := hupheld.follows past hbefore
      rw [hlawful.replaced] at hfollows
      exact (hfollows (hepoch.trans hsame)).trans (hlawful.follows hseen hsame)
    · exact absurd hepoch.symm (hfresh (some past.stored) (.inr ⟨past, hbefore, rfl⟩))
  · cases List.mem_singleton.mp hnew
    exact ⟨le_rfl, fun _ _ htokens => htokens⟩

theorem Upheld.attested_write (observation : GrantObservation)
    (tokens : Written OAuthTokens)
    (hobservation : commit.stored.grant.observation = some observation)
    (hrevision : observation.revision = commit.stored.grant.revision)
    (htokens : commit.stored.grant.body.tokens = some tokens) :
    Attested (world.write commit) commit.stored.grant.epoch observation
      tokens.value := by
  obtain ⟨grant, hopened, hallowed⟩ := hlawful.allowed
  have hlog : world.log <+: (world.write commit).log := List.prefix_append _ _
  rcases hallowed.epoch with hstays | hmoves
  case inr =>
    rw [hmoves.observation] at hobservation
    cases hobservation
  cases hobtains : commit.purpose.obtains with
  | true =>
      rw [(hstays.obtained hobtains).2] at hobservation
      cases hobservation
  | false =>
  obtain ⟨hsame, hkept⟩ := hstays.kept hobtains
  have hread : grant.body.tokens = some tokens := by
    rcases hkept with hnone | hkept
    · cases hnone.symm.trans htokens
    · exact hkept.symm.trans htokens
  have hstored := hopened.tokens hread
  have hepoch := hstays.epoch.trans hopened.epoch
  rcases hstays.observed hobtains with hold | hnew
  · -- the observation was there already
    obtain ⟨hbefore, hcurrent⟩ :=
      hopened.observation observation (hold.symm.trans hobservation)
    have hattested := hupheld.attested observation tokens
    rw [hlawful.replaced] at hattested
    obtain ⟨past, hpast, snapshot, hpurpose, hof, hat, hwith, htaken⟩ :=
      hattested hbefore hcurrent hstored
    exact ⟨past, hlog.subset hpast, snapshot, hpurpose, hof.trans hepoch.symm,
      hat, hwith, htaken.later hlog⟩
  · -- this write records it, for a snapshot of a record with these tokens
    obtain ⟨snapshot, outcome, hpurpose, hof, hat, hrecorded⟩ := hnew
    cases hrecorded.symm.trans hobservation
    have htaken := hlawful.founded snapshot outcome hpurpose
    refine ⟨commit, List.mem_append_right _ (List.mem_singleton_self _), snapshot,
      hpurpose, hof.symm.trans hstays.epoch.symm, rfl, ?_, htaken.later hlog⟩
    obtain ⟨past, hpast, hpastEpoch, hpastRevision, hpastTokens⟩ := htaken
    have hfollows := hupheld.follows past hpast
    rw [hlawful.replaced] at hfollows
    have hpastSame := (hfollows (hpastEpoch.trans
      (hof.symm.trans hopened.epoch))).tokens
      (hpastRevision.trans (hat.symm.trans hopened.revision)) tokens hstored
    rw [hpastSame] at hpastTokens
    exact (Option.some.inj hpastTokens).symm

/-- The step lemma: a lawful write upholds everything. -/
theorem Upheld.write : Upheld (world.write commit) where
  seen := .inr ⟨commit, List.mem_append_right _ (List.mem_singleton_self _), rfl⟩
  replaced := by
    intro past hpast
    refine Seen.later ?_ (List.prefix_append world.log [commit])
    rcases List.mem_append.mp hpast with hbefore | hnew
    · exact hupheld.replaced past hbefore
    · cases List.mem_singleton.mp hnew
      exact hlawful.replaced ▸ hupheld.seen
  bound := hlawful.bound (hlawful.replaced ▸ hupheld.bound)
  vacant := hlawful.vacant (hlawful.replaced ▸ hupheld.vacant)
  live := hupheld.live_write hlawful
  follows := hupheld.follows_write hlawful
  attested := hupheld.attested_write hlawful

end Step

/-- A write where its writer and its tokens belong. -/
structure Fenced (commit : Commit) : Prop where
  begun : ∀ begun, commit.purpose.begun = some begun →
    (contents commit.replaced).epoch = begun
  /-- Tokens of a refresh or of a code exchange stay in the epoch; others may
  start the epoch of another server. -/
  obtained : commit.purpose.obtains = true →
    commit.stored.grant.epoch = (contents commit.replaced).epoch ∨
      commit.purpose.exchanged = false ∧
        (contents commit.replaced).body.issuer ≠ none ∧
        (contents commit.replaced).body.issuer ≠ commit.stored.grant.body.issuer
  vacant : commit.stored.grant.epoch.isDisconnected = true →
    Vacant commit.stored.grant.body
  bound : Bound commit.stored.grant.body

/-- An epoch once ended is neither read nor stored again. -/
def Retired (earlier later : Commit) : Prop :=
  earlier.Ends →
    (contents later.replaced).epoch ≠ (contents earlier.replaced).epoch ∧
      later.stored.grant.epoch ≠ (contents earlier.replaced).epoch

/-- A commit of tokens within the epoch it found has a greater revision. -/
def Raised (commit : Commit) : Prop :=
  commit.purpose.obtains = true →
    commit.stored.grant.epoch = (contents commit.replaced).epoch →
      (contents commit.replaced).revision < commit.stored.grant.revision

/-- Within an epoch a commit of tokens has a greater revision than any before. -/
def Increases (earlier later : Commit) : Prop :=
  later.purpose.obtains = true →
    later.stored.grant.epoch = earlier.stored.grant.epoch →
      earlier.stored.grant.revision < later.stored.grant.revision

/-- Each write replaced what the one before it stored. -/
def Linked : Option StoredGrant → List Commit → Option StoredGrant → Prop
  | first, [], last => first = last
  | first, commit :: rest, last =>
      commit.replaced = first ∧ Linked (some commit.stored) rest last

theorem linked_append {commit : Commit} {log : List Commit}
    {first last : Option StoredGrant} (hlinked : Linked first log last)
    (hreplaced : last = commit.replaced) :
    Linked first (log ++ [commit]) (some commit.stored) := by
  induction log generalizing first with
  | nil => exact ⟨(hlinked.trans hreplaced).symm, rfl⟩
  | cons head rest ih => exact ⟨hlinked.1, ih hlinked.2⟩

/-- What holds of all that was written. -/
structure Recorded (world : World) : Prop where
  upheld : Upheld world
  linked : Linked none world.log world.cell
  fenced : ∀ commit ∈ world.log, Fenced commit
  raised : ∀ commit ∈ world.log, Raised commit
  retired : world.log.Pairwise Retired
  increases : world.log.Pairwise Increases

theorem recorded_empty : Recorded World.empty where
  upheld := upheld_empty
  linked := rfl
  fenced := fun _ hcommit => absurd hcommit List.not_mem_nil
  raised := fun _ hcommit => absurd hcommit List.not_mem_nil
  retired := .nil
  increases := .nil

section Recorded

variable {world : World} {commit : Commit}

theorem Upheld.fenced (hupheld : Upheld world) (hlawful : Lawful world commit) :
    Fenced commit where
  begun := by
    intro begun hbegun
    obtain ⟨grant, hopened, hallowed⟩ := hlawful.allowed
    rw [← hopened.epoch]
    exact hallowed.fenced begun hbegun
  obtained := by
    intro hobtains
    obtain ⟨grant, hopened, hallowed⟩ := hlawful.allowed
    rw [← hopened.epoch]
    refine (hallowed.obtained hobtains).imp_right fun hother => ?_
    rcases hopened.body with hbody | hbody
    · rwa [hbody] at hother
    · rw [hbody] at hother
      exact absurd rfl hother.2.1
  vacant := hlawful.vacant (hlawful.replaced ▸ hupheld.vacant)
  bound := hlawful.bound (hlawful.replaced ▸ hupheld.bound)

theorem pairwise_append_single {Item : Type} {relation : Item → Item → Prop}
    {items : List Item} {item : Item} (hitems : items.Pairwise relation)
    (hitem : ∀ earlier ∈ items, relation earlier item) :
    (items ++ [item]).Pairwise relation := by
  refine List.pairwise_append.mpr ⟨hitems, List.pairwise_singleton _ _, ?_⟩
  intro earlier hearlier later hlater
  cases List.mem_singleton.mp hlater
  exact hitem earlier hearlier

/-- The step lemma for the past. -/
theorem Recorded.write (hrecorded : Recorded world)
    (hlawful : Lawful world commit) : Recorded (world.write commit) where
  upheld := hrecorded.upheld.write hlawful
  linked := linked_append hrecorded.linked hlawful.replaced
  fenced := by
    intro past hpast
    rcases List.mem_append.mp hpast with hbefore | hnew
    · exact hrecorded.fenced past hbefore
    · cases List.mem_singleton.mp hnew
      exact hrecorded.upheld.fenced hlawful
  raised := by
    intro past hpast
    rcases List.mem_append.mp hpast with hbefore | hnew
    · exact hrecorded.raised past hbefore
    · cases List.mem_singleton.mp hnew
      exact hlawful.increases (hlawful.replaced ▸ hrecorded.upheld.seen)
  retired := by
    refine pairwise_append_single hrecorded.retired fun past hpast hends => ?_
    constructor
    · rw [← hlawful.replaced]
      exact hrecorded.upheld.live past hpast hends
    · exact hrecorded.upheld.live_write hlawful past
        (List.mem_append_left _ hpast) hends
  increases := by
    refine pairwise_append_single hrecorded.increases ?_
    intro past hpast hobtains hepoch
    rcases hlawful.same_or_fresh with hsame | hfresh
    · have hfollows := hrecorded.upheld.follows past hpast
      have hseen := hlawful.replaced ▸ hrecorded.upheld.seen
      rw [hlawful.replaced] at hfollows
      exact (hfollows (hepoch.symm.trans hsame)).revision.trans_lt
        (hlawful.increases hseen hobtains hsame)
    · exact absurd hepoch (hfresh (some past.stored) (.inr ⟨past, hpast, rfl⟩))

/-- A drawn id changes nothing that is stored. -/
theorem Recorded.draw (hrecorded : Recorded world) :
    Recorded { world with drawn := world.drawn + 1 } where
  upheld := { hrecorded.upheld with }
  linked := hrecorded.linked
  fenced := hrecorded.fenced
  raised := hrecorded.raised
  retired := hrecorded.retired
  increases := hrecorded.increases

end Recorded

/-- The run lemma: every run from an empty store is recorded so. -/
theorem reachable_recorded {system : System grantService}
    (hreachable : Reachable grantDiscipline World.empty system) :
    Recorded system.world := by
  refine reachable_invariant grant_disciplined valid_empty recorded_empty ?_
    hreachable
  intro before after hrecorded _ hchanges
  cases hchanges with
  | still => exact hrecorded
  | draw => exact hrecorded.draw
  | write commit hlawful => exact hrecorded.write hlawful

/-! ## A run -/

theorem compareAndSet_served {world : World} {expected : Option StoredGrant}
    {next : StoredGrant} {purpose : Purpose} (hcell : world.cell = expected) :
    grantDiscipline.serve (.compareAndSet expected next purpose) world true
      (world.write
        { replaced := expected, stored := next, purpose := purpose }) := by
  simp only [grantDiscipline, serveGrant, if_pos hcell, and_self]

/-- A code exchange bound to the initial epoch. -/
def exchangeProvider : Provider where
  epoch := some .initial
  bound := true
  codeExchange := true
  sealer := false
  clientBinding := none
  clientMetadataUrl := none
  configuredClient := none
  seenClient := none
  seenTokens := none

def exchangedTokens : OAuthTokens where
  accessToken := []
  refreshToken := none
  expiresIn := none
  issuer := none

def exchangedGrant : StoredGrant where
  grant := {
    epoch := .initial
    tokenRevision := some 1
    body := { tokens := some { value := exchangedTokens, under := none } } }
  cipher := none

def exchangedCommit : Commit where
  replaced := none
  stored := exchangedGrant
  purpose := .tokens (some .initial) true

theorem exchange_served :
    Served grantDiscipline
      (grantCall (.saveTokens exchangeProvider exchangedTokens none 0 none))
      World.empty (.ok ()) (World.empty.write exchangedCommit) := by
  refine .ask false rfl ?_
  refine .ask none ⟨rfl, rfl⟩ ?_
  refine .ask false rfl ?_
  refine .ask true (compareAndSet_served rfl) ?_
  exact .done _ _

def acceptedSnapshot : Snapshot where
  epoch := .initial
  revision := 1
  tokens := exchangedTokens

def acceptedCommit : Commit where
  replaced := some exchangedGrant
  stored := {
    grant := {
      exchangedGrant.grant with
      observation := some { revision := 1, outcome := .accepted } }
    cipher := none }
  purpose := .outcome acceptedSnapshot .accepted

/-- The exchanged tokens are accepted. -/
theorem accept_served :
    Served grantDiscipline
      (grantCall (.recordTokenOutcome exchangeProvider acceptedSnapshot .accepted))
      (World.empty.write exchangedCommit) (.ok ())
      ((World.empty.write exchangedCommit).write acceptedCommit) := by
  refine .ask false rfl ?_
  refine .ask (some exchangedGrant) ⟨rfl, rfl⟩ ?_
  refine .ask false rfl ?_
  refine .ask true (compareAndSet_served rfl) ?_
  exact .done _ _

/-- A store whose only call exchanged a code. -/
theorem exchange_reachable : ∃ system : System grantService,
    Reachable grantDiscipline World.empty system ∧
      system.world = World.empty.write exchangedCommit ∧
      system.running 1 = none := by
  have hempty : Reachable grantDiscipline World.empty
      ({ world := World.empty, running := fun _ => none, waiting := fun _ => none } :
        System grantService) := .refl
  obtain ⟨system, hreachable, hworld, hothers⟩ := hempty.served 0
    (GrantCall.saveTokens exchangeProvider exchangedTokens none 0 none) rfl
    trivial exchange_served
  exact ⟨system, hreachable, hworld, hothers 1 Nat.one_ne_zero⟩

/-! ## Results -/

theorem opened_of_returns {raw : Option StoredGrant} {grant : Grant}
    (hreturns : Program.Returns (openGrant raw) (.ok grant)) :
    Opened (contents raw) grant := by
  cases raw with
  | none =>
      cases hreturns
      exact opened_readable _ (.inl rfl)
  | some stored =>
      rcases stored with ⟨grant, _ | cipher⟩
      · cases hreturns
        exact opened_readable _ (.inl rfl)
      · cases hreturns with
        | ask _ _ reply _ hrest =>
            cases reply with
            | error interruption => cases hrest
            | ok opened =>
                cases hrest
                refine opened_readable _ ?_
                cases opened with
                | true => exact .inl rfl
                | false => exact .inr rfl

/-- An observation that is read beside tokens was recorded with a snapshot of
those tokens in their epoch, and every commit of tokens raises the revision of
its epoch. -/
theorem observation_attested {system : System grantService}
    (hreachable : Reachable grantDiscipline World.empty system) :
    (∀ grant observation tokens,
      Program.Returns (openGrant system.world.cell) (.ok grant) →
      grant.observation = some observation →
      grant.body.tokens = some tokens →
        Attested system.world grant.epoch observation tokens.value) ∧
      (∀ commit ∈ system.world.log, Raised commit) ∧
      system.world.log.Pairwise Increases := by
  have hrecorded := reachable_recorded hreachable
  refine ⟨?_, hrecorded.raised, hrecorded.increases⟩
  intro grant observation tokens hreturns hobservation htokens
  have hopened := opened_of_returns hreturns
  obtain ⟨hstored, hrevision⟩ := hopened.observation observation hobservation
  rw [hopened.epoch]
  exact hrecorded.upheld.attested observation tokens hstored hrevision
    (hopened.tokens htokens)

/-- Tokens are exchanged, and a call with them was accepted. -/
theorem observation_attested_accepted : ∃ system : System grantService,
    system.world.log = [exchangedCommit, acceptedCommit] ∧
      Attested system.world .initial { revision := 1, outcome := .accepted }
        exchangedTokens := by
  obtain ⟨system, hreachable, hworld, hidle⟩ := exchange_reachable
  have htaken : Taken system.world acceptedSnapshot := by
    rw [hworld]
    exact ⟨exchangedCommit, List.mem_singleton_self _, rfl, rfl, rfl⟩
  obtain ⟨later, hlater, hafter, -⟩ := hreachable.served 1
    (GrantCall.recordTokenOutcome exchangeProvider acceptedSnapshot .accepted)
    hidle htaken (by rw [hworld]; exact accept_served)
  refine ⟨later, ?_, (observation_attested hlater).1 acceptedCommit.stored.grant _
    { value := exchangedTokens, under := none } ?_ rfl rfl⟩
  · rw [hafter]
    rfl
  · rw [hafter]
    exact .done _

end Connecta.GrantStore
