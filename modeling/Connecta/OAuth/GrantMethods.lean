import Connecta.OAuth.GrantFence

/-!
# The grant methods write lawfully

Each method is followed operation by operation: what it read is a record the
cell has held, what it writes is allowed by what it read, and an epoch it starts
has an id only it holds.
-/

namespace Connecta.GrantStore

open Connecta.Programs
open Connecta.Runtime

variable {held : Set ℕ} {world : World}

/-! ## Reading -/

theorem opened_readable (stored : Grant) {body : GrantBody}
    (hbody : body = stored.body ∨ body = {}) :
    Opened stored (readable stored body) where
  epoch := rfl
  revision := rfl
  body := hbody
  observation := by
    intro observation hobservation
    have hfiltered := Option.filter_eq_some_iff.mp hobservation
    exact ⟨hfiltered.1, of_decide_eq_true hfiltered.2⟩

theorem openGrant_safe (raw : Option StoredGrant) :
    Safe grantDiscipline
      (Returning fun grant _ _ => Opened (contents raw) grant) (openGrant raw)
      held world := by
  cases raw with
  | none => exact returned_safe fun _ _ _ => opened_readable _ (.inl rfl)
  | some stored =>
      rcases stored with ⟨grant, _ | cipher⟩
      · exact returned_safe fun _ _ _ => opened_readable _ (.inl rfl)
      · refine wait_safe trivial fun now _ _ opened _ => ?_
        refine returned_safe fun _ _ _ => opened_readable _ ?_
        cases opened with
        | true => exact .inl rfl
        | false => exact .inr rfl

theorem encodeGrant_safe (provider : Provider) (grant : Grant) :
    Safe grantDiscipline
      (Returning fun stored _ _ => stored.grant = grant)
      (encodeGrant provider grant) held world := by
  rw [encodeGrant]
  split
  · exact wait_safe trivial fun _ _ _ _ _ => returned_safe fun _ _ _ => rfl
  · exact returned_safe fun _ _ _ => rfl

/-- What a method knows of the record it read. -/
def Read (found : Option StoredGrant × Grant) (world : World) : Prop :=
  Seen world found.1 ∧ Opened (contents found.1) found.2

theorem Read.later {found : Option StoredGrant × Grant} {before after : World}
    (hread : Read found before)
    (hrely : grantDiscipline.Rely held before after) : Read found after :=
  ⟨hread.1.later (log_of_rely hrely), hread.2⟩

/-- Sealing a plain body changes nothing that is read. -/
theorem allowed_sealing (grant : Grant) (fresh : Set ℕ) :
    Allowed .sealing grant grant fresh where
  fenced := nofun
  obtained := nofun
  disconnected := fun _ hvacant => hvacant rfl
  bound := id
  epoch := .inl {
    epoch := rfl
    obtained := nofun
    kept := fun _ => ⟨rfl, .inr rfl⟩
    observed := fun _ => .inl rfl }

theorem readGrant_safe (provider : Provider) :
    Safe grantDiscipline (Returning fun found _ now => Read found now)
      (readGrant provider) held world := by
  refine wait_safe trivial fun now _ hnow raw hserved => ?_
  obtain ⟨rfl, -⟩ := hserved
  refine andThen_safe hnow (openGrant_safe _) ?_
  intro grant own opened hopening hopened hgrant
  have hread : Read (now.cell, grant) opened :=
    ⟨hnow.valid.seen.later (log_of_rely hopening), hgrant⟩
  split
  · refine andThen_safe hopened (encodeGrant_safe provider grant) ?_
    intro stored more encoded hencoding hencoded hstored
    have hseen := (hread.later hencoding).1
    have hallowed := allowed_sealing grant (more ∪ (own ∪ held))
    refine compareAndSet_safe hencoded hseen hgrant (hstored ▸ hallowed) nofun
      ?_ ?_ ?_
    · intro all written hwritten
      refine returned_safe fun later hlater _ => ?_
      refine ⟨hwritten.later (log_of_rely hlater), ?_⟩
      rw [show contents (some stored) = grant from hstored]
      exact hgrant.self
    · intro missed hmissed _
      exact returned_safe fun later hlater _ =>
        (hread.later hencoding).later (hmissed.trans hlater)
    · intro all lost _ hlost _ loss
      cases loss with
      | failed =>
          exact returned_safe fun later hlater _ =>
            (hread.later hencoding).later (hlost.trans hlater)
      | aborted => exact failed_safe .aborted
  · exact returned_safe fun later hlater _ => hread.later hlater

/-! ## Writing -/

/-- The final promise of a method: it made lawful writes only. -/
abbrev Lawfully (Result : Type) : Except Fault Result → Set ℕ → World → Prop :=
  Returning fun _ _ _ => True

theorem lawfully_done {Result : Type} (result : Except Fault Result) :
    Safe grantDiscipline (Lawfully Result)
      (.done result : GrantProgram (Except Fault Result)) held world := by
  cases result with
  | ok result => exact returned_safe fun _ _ _ => trivial
  | error fault => exact failed_safe fault

/-- A change that offers allowed writes only, for a grant that is connected and
in the epoch the purpose began in. -/
def Offers (purpose : Purpose) (change : Change) : Prop :=
  ∀ grant, grant.epoch.isDisconnected = false →
    (∀ begun, purpose.begun = some begun → grant.epoch = begun) →
      ∀ world, grantDiscipline.Held ∅ world →
        Safe grantDiscipline
          (Returning fun offer own _ => ∀ next, offer = some next →
            Allowed purpose grant next own)
          (change grant) ∅ world

theorem Allowed.mono {purpose : Purpose} {grant next : Grant}
    {fewer fresh : Set ℕ} (hallowed : Allowed purpose grant next fewer)
    (hfewer : fewer ⊆ fresh) : Allowed purpose grant next fresh :=
  { hallowed with
    epoch := hallowed.epoch.imp_right fun hmoves =>
      ⟨hmoves.observation, hmoves.id.imp fun _ hid => ⟨hfewer hid.1, hid.2⟩⟩ }

/-- A provider stays in the epoch its purpose began in. -/
theorem bindEpoch_epoch {options : UpdateOptions} {provider : Provider}
    {grant : Grant} {begun : Epoch}
    (hbegun : (options.epoch <|> provider.epoch) = some begun) :
    (options.epoch <|> (options.bindEpoch provider grant).epoch) =
      some begun := by
  rw [UpdateOptions.bindEpoch]
  split
  · exact hbegun
  · rw [UpdateOptions.epochFor, hbegun]
    cases hepoch : options.epoch with
    | none => rfl
    | some epoch =>
        rw [hepoch] at hbegun
        exact hbegun

theorem updateGrant_safe {change : Change} {purpose : Purpose}
    (hoffers : Offers purpose change) (options : UpdateOptions)
    (attempts : ℕ) (provider : Provider)
    (hbegun : ∀ begun, purpose.begun = some begun →
      (options.epoch <|> provider.epoch) = some begun)
    (hfounded : Founded world purpose)
    (hheld : grantDiscipline.Held held world) :
    Safe grantDiscipline (Lawfully _)
      (updateGrant change purpose options attempts provider) held world := by
  induction attempts generalizing provider held world with
  | zero => exact lawfully_done _
  | succ attempts ih =>
      refine unlessAborted_safe (fun _ _ => trivial) hheld ?_
      intro now hrely hnow
      refine andThen_safe hnow (readGrant_safe provider) ?_
      rintro ⟨raw, grant⟩ own read hreading hread hfound
      dsimp only
      by_cases hfenced : grant.epoch = options.epochFor provider grant
      case neg =>
        rw [if_pos hfenced]
        split <;> exact lawfully_done _
      rw [if_neg (not_not.mpr hfenced)]
      cases hdisconnected : grant.epoch.isDisconnected with
      | true => exact lawfully_done _
      | false =>
      have hin : ∀ begun, purpose.begun = some begun → grant.epoch = begun := by
        intro begun hpurpose
        rw [hfenced, UpdateOptions.epochFor, hbegun begun hpurpose]
        rfl
      refine andThen_safe hread
        (hoffers grant hdisconnected hin read (hread.mono (Set.empty_subset _)))
        ?_
      rintro (_ | next) more offered hoffering hoffered hoffer
      · exact lawfully_done _
      refine andThen_safe hoffered (encodeGrant_safe provider next) ?_
      intro stored most encoded hencoding hencoded hstored
      refine unlessAborted_safe (fun _ _ => trivial) hencoded ?_
      intro ready hwaiting hready
      have hrest := (log_of_rely hoffering).trans
        ((log_of_rely hencoding).trans (log_of_rely hwaiting))
      have hbefore := (log_of_rely hrely).trans (log_of_rely hreading)
      have hallowed := (hoffer next rfl).mono (Set.subset_union_left.trans
        (Set.subset_union_right : more ∪ (own ∪ held) ⊆ most ∪ _))
      refine compareAndSet_safe hready (hfound.1.later hrest) hfound.2
        (hstored ▸ hallowed) (hfounded.later (hbefore.trans hrest)) ?_ ?_ ?_
      · exact fun _ _ _ => lawfully_done _
      · intro missed hmissing hmissed
        refine ih (options.bindEpoch provider grant) ?_ ?_ hmissed
        · intro begun hpurpose
          exact bindEpoch_epoch (hbegun begun hpurpose)
        · exact hfounded.later (hbefore.trans (hrest.trans
            (log_of_rely hmissing)))
      · intro _ _ _ _ _ loss
        cases loss <;> exact lawfully_done _

/-! ## The changes -/

/-- A drawn id is held by whoever drew it. -/
theorem drawn_safe {Result : Type} {post : Result → Set ℕ → World → Prop}
    {next : ℕ → GrantProgram (Except Fault Result)}
    (hnext : ∀ id own now, id ∈ own → grantDiscipline.Held own now →
      grantDiscipline.Rely ∅ world now →
      Safe grantDiscipline (Returning post) (next id) own now) :
    Safe grantDiscipline (Returning post) (wait .randomUUID next) held world := by
  have hdraws : ∀ now, grantDiscipline.Rely ∅ world now → Valid now →
      ∀ answer later, grantDiscipline.serve .randomUUID now answer later →
        grantDiscipline.Spends ∅ now later := by
    rintro now - hvalid answer later ⟨-, rfl⟩
    refine ⟨.draw, ⟨hvalid.seen, fun id hid => ?_⟩, fun id hid => ?_,
      Set.subset_union_left⟩
    · exact Nat.lt_succ_of_lt (hvalid.drawn id hid)
    · exact Nat.lt_succ_of_lt hid
  refine Safe.asked rfl hdraws fun now hrely hheld => ⟨?_, ?_⟩
  · rintro answer later hserved
    have hspends := hdraws now (hrely.mono (Set.empty_subset _)) hheld.valid
      answer later hserved
    have hkept := hheld.kept hspends
    have hlater := (hrely.mono (Set.empty_subset _)).tail
      ⟨∅, Set.empty_disjoint _, hspends⟩
    obtain ⟨rfl, rfl⟩ := hserved
    refine hnext _ _ _ ⟨.inr ⟨Nat.lt_succ_self _, Nat.lt_irrefl now.drawn⟩, ?_⟩ hkept
      hlater
    exact fun hspent => lt_irrefl _ (hheld.valid.drawn _ hspent)
  · exact fun loss _ _ _ => trivial

/-- A body a writer may put in a grant: the grant's own credentials, or ones
written under its server. -/
theorem bodyFor_cases (grant : Grant) (issuer : Option JsString) :
    bodyFor grant issuer = { issuer := issuer } ∨
      bodyFor grant issuer = grant.body := by
  rw [bodyFor]
  split
  · exact .inl rfl
  · exact .inr rfl

theorem bound_bodyFor {grant : Grant} (issuer : Option JsString)
    (hbound : Bound grant.body) : Bound (bodyFor grant issuer) := by
  rcases bodyFor_cases grant issuer with hbody | hbody
  · rw [hbody]
    exact bound_empty issuer
  · rwa [hbody]

theorem tokens_bodyFor (grant : Grant) (issuer : Option JsString) :
    (bodyFor grant issuer).tokens = none ∨
      (bodyFor grant issuer).tokens = grant.body.tokens := by
  rcases bodyFor_cases grant issuer with hbody | hbody <;> rw [hbody]
  · exact .inl rfl
  · exact .inr rfl

/-- `withIssuer` puts the body in the grant's epoch, or in a new one. -/
structure Placed (provider : Provider) (grant : Grant) (body : GrantBody)
    (next : Grant) (fresh : Set ℕ) : Prop where
  place : next = { grant with body := body } ∨
    (provider.codeExchange = false ∧ grant.body.issuer ≠ none ∧
      grant.body.issuer ≠ body.issuer) ∧
      ∃ id ∈ fresh, next = { epoch := .active id, body := body }

theorem withIssuer_safe (provider : Provider) (grant : Grant) (body : GrantBody) :
    Safe grantDiscipline
      (Returning fun next own _ => Placed provider grant body next own)
      (withIssuer provider grant body) ∅ world := by
  rw [withIssuer]
  split
  case isFalse => exact returned_safe fun _ _ _ => ⟨.inl rfl⟩
  case isTrue hother =>
    cases hexchange : provider.codeExchange with
    | true => exact failed_safe .flowSuperseded
    | false =>
        have hissuer : grant.body.issuer ≠ none ∧
            grant.body.issuer ≠ body.issuer := by
          simpa [Option.isSome_iff_ne_none] using hother
        refine drawn_safe fun id own _ hid _ _ => ?_
        exact returned_safe fun _ _ _ =>
          ⟨.inr ⟨⟨hexchange, hissuer⟩, id, hid, rfl⟩⟩

namespace Purpose

theorem begun_of_obtains {purpose : Purpose} (hobtains : purpose.obtains = false) :
    purpose.begun = none := by
  cases purpose <;> first | rfl | cases hobtains

end Purpose

/-- A write that obtains no tokens and stays in the grant's epoch. -/
theorem allowed_kept {purpose : Purpose} {grant next : Grant} {fresh : Set ℕ}
    (hobtains : purpose.obtains = false)
    (hconnected : grant.epoch.isDisconnected = false)
    (hepoch : next.epoch = grant.epoch)
    (hrevision : next.revision = grant.revision)
    (hobserved : next.observation = grant.observation ∨
      ∃ snapshot outcome, purpose = .outcome snapshot outcome ∧
        grant.epoch = snapshot.epoch ∧ grant.revision = snapshot.revision ∧
        next.observation =
          some { revision := snapshot.revision, outcome := outcome })
    (hbound : Bound grant.body → Bound next.body)
    (htokens : next.body.tokens = none ∨
      next.body.tokens = grant.body.tokens) :
    Allowed purpose grant next fresh where
  fenced := by
    rw [Purpose.begun_of_obtains hobtains]
    exact nofun
  obtained := fun hobtained => absurd hobtained (Bool.eq_false_iff.mp hobtains)
  disconnected := by
    rw [hepoch, hconnected]
    exact nofun
  bound := hbound
  epoch := .inl {
    epoch := hepoch
    obtained := fun hobtained => absurd hobtained (Bool.eq_false_iff.mp hobtains)
    kept := fun _ => ⟨hrevision, htokens⟩
    observed := fun _ => hobserved }

/-- A write of another server's body starts an epoch. -/
theorem allowed_moved {purpose : Purpose} {grant next : Grant} {fresh : Set ℕ}
    {id : ℕ} (hid : id ∈ fresh)
    (hbegun : ∀ begun, purpose.begun = some begun → grant.epoch = begun)
    (hobtained : purpose.obtains = true → purpose.exchanged = false ∧
      grant.body.issuer ≠ none ∧ grant.body.issuer ≠ next.body.issuer)
    (hbound : Bound grant.body → Bound next.body)
    (hepoch : next.epoch = .active id) (hobservation : next.observation = none) :
    Allowed purpose grant next fresh where
  fenced := hbegun
  obtained := fun hpurpose => .inr (hobtained hpurpose)
  disconnected := by
    rw [hepoch]
    exact nofun
  bound := hbound
  epoch := .inr ⟨hobservation, id, hid, by rw [hepoch]; rfl⟩

/-- A change that places a body and obtains no tokens. -/
theorem placed_offer {provider : Provider} {purpose : Purpose} {grant : Grant}
    {body : GrantBody} (hobtains : purpose.obtains = false)
    (hconnected : grant.epoch.isDisconnected = false)
    (hbound : Bound grant.body → Bound body)
    (htokens : body.tokens = none ∨ body.tokens = grant.body.tokens)
    (hheld : grantDiscipline.Held ∅ world) :
    Safe grantDiscipline
      (Returning fun offer own _ => ∀ next, offer = some next →
        Allowed purpose grant next own)
      (andThen (withIssuer provider grant body) fun next =>
        .done (.ok (some next))) ∅ world := by
  refine andThen_safe hheld (withIssuer_safe provider grant body) ?_
  intro next own now _ _ hplaced
  refine returned_safe fun _ _ _ other hother => ?_
  cases hother
  rw [Set.union_empty]
  rcases hplaced.place with rfl | ⟨-, id, hid, rfl⟩
  · exact allowed_kept hobtains hconnected rfl rfl (.inl rfl) hbound htokens
  · refine allowed_moved hid ?_ ?_ hbound rfl rfl
    · rw [Purpose.begun_of_obtains hobtains]
      exact nofun
    · exact fun hobtained => absurd hobtained (Bool.eq_false_iff.mp hobtains)

theorem clientChange_offers (provider : Provider) (client : Client)
    (issuer : Option JsString) :
    Offers .client (clientChange provider client issuer) := by
  intro grant hconnected _ world hheld
  refine placed_offer rfl hconnected ?_ (tokens_bodyFor grant issuer)
    hheld
  intro hbound
  refine ⟨fun written hwritten => ?_, (bound_bodyFor issuer hbound).2⟩
  cases hwritten
  rfl

theorem discoveryChange_offers (provider : Provider) (state : Discovery) :
    Offers .discovery (discoveryChange provider state) := by
  intro grant hconnected _ world hheld
  rw [discoveryChange]
  split
  · exact placed_offer rfl hconnected
      (fun _ => bound_empty state.issuer) (.inl rfl) hheld
  · exact placed_offer rfl hconnected id (.inr rfl) hheld

theorem issuerChange_offers (provider : Provider) (issuer : JsString) :
    Offers .issuer (issuerChange provider issuer) := by
  intro grant hconnected _ world hheld
  rw [issuerChange]
  split
  · exact returned_safe fun _ _ _ _ hnone => nomatch hnone
  · exact placed_offer rfl hconnected (fun _ => bound_empty _) (.inl rfl)
      hheld

/-- A write of newly obtained tokens within the grant's epoch. -/
theorem allowed_obtained {purpose : Purpose} {grant : Grant} {body : GrantBody}
    {fresh : Set ℕ} (hobtains : purpose.obtains = true)
    (hbegun : ∀ begun, purpose.begun = some begun → grant.epoch = begun)
    (hdisconnected : grant.epoch.isDisconnected = true →
      Vacant grant.body → Vacant body)
    (hbound : Bound grant.body → Bound body) :
    Allowed purpose grant
      { grant with
        body := body
        tokenRevision := some (grant.revision + 1)
        observation := none } fresh where
  fenced := hbegun
  obtained := fun _ => .inl rfl
  disconnected := fun hdisconnects hvacant =>
    hdisconnected hdisconnects (hvacant rfl)
  bound := hbound
  epoch := .inl {
    epoch := rfl
    obtained := fun _ => ⟨Nat.lt_succ_self _, rfl⟩
    kept := fun hkept => absurd hobtains (Bool.eq_false_iff.mp hkept)
    observed := fun hkept => absurd hobtains (Bool.eq_false_iff.mp hkept) }

theorem nextTokenGrant_cases {grant next : Grant} {body : GrantBody}
    (hnext : nextTokenGrant grant body = .ok next) :
    next = { grant with
      body := body
      tokenRevision := some (grant.revision + 1)
      observation := none } := by
  rw [nextTokenGrant] at hnext
  split at hnext
  · exact (Except.ok.inj hnext).symm
  · cases hnext

theorem bound_withTokens {body : GrantBody} (tokens : OAuthTokens)
    (issuedAt : ℕ) (consent : Option RefreshConsent) (hbound : Bound body) :
    Bound (withTokens body tokens issuedAt consent) := by
  refine ⟨hbound.1, fun written hwritten => ?_⟩
  cases hwritten
  rfl

theorem tokensChange_offers (provider : Provider) (tokens : OAuthTokens)
    (issuer : Option JsString) (issuedAt : ℕ) (consent : Option RefreshConsent) :
    Offers (.tokens provider.epoch provider.codeExchange)
      (tokensChange provider tokens issuer issuedAt consent) := by
  intro grant hconnected hbegun world hheld
  have hbound : Bound grant.body → Bound (withTokens (bodyFor grant issuer)
      tokens issuedAt consent) := fun hbound =>
    bound_withTokens tokens issuedAt consent (bound_bodyFor issuer hbound)
  refine andThen_safe hheld (withIssuer_safe provider grant _) ?_
  intro placed own now _ _ hplaced
  rw [Set.union_empty]
  split
  case h_2 fault _ => exact failed_safe fault
  case h_1 committed hcommitted =>
  refine returned_safe fun _ _ _ next hnext => ?_
  cases hnext
  rw [nextTokenGrant_cases hcommitted]
  rcases hplaced.place with rfl | ⟨hother, id, hid, rfl⟩
  · exact allowed_obtained rfl hbegun
      (fun hdisconnects =>
        absurd hdisconnects (Bool.eq_false_iff.mp hconnected)) hbound
  · exact allowed_moved hid hbegun (fun _ => hother) hbound rfl rfl

theorem flowChange_offers (digest : JsString) :
    Offers .flow (flowChange digest) := by
  intro grant hconnected _ world _
  refine returned_safe fun now _ _ next hnext => ?_
  cases hnext
  exact allowed_kept rfl hconnected rfl rfl (.inl rfl) id (.inr rfl)

/-- Nothing is offered. -/
theorem unchanged_offer {purpose : Purpose} {grant : Grant} :
    Safe grantDiscipline
      (Returning fun offer own _ => ∀ next, offer = some next →
        Allowed purpose grant next own)
      (.done (.ok none) : GrantProgram (Except Fault (Option Grant))) held
      world :=
  returned_safe fun _ _ _ _ hnone => nomatch hnone

theorem invalidationChange_offers (provider : Provider)
    (scope : InvalidationScope) :
    Offers .invalidation (invalidationChange provider scope) := by
  intro grant hconnected _ world _
  rw [invalidationChange]
  split
  case isFalse => exact unchanged_offer
  case isTrue =>
  refine returned_safe fun now _ _ next hnext => ?_
  cases hnext
  refine allowed_kept rfl hconnected rfl rfl (.inl rfl) ?_ ?_
  · intro hbound
    constructor
    · intro client hclient
      dsimp only at hclient
      split at hclient
      · cases hclient
      · exact hbound.1 client hclient
    · intro tokens htokens
      dsimp only at htokens
      split at htokens
      · cases htokens
      · exact hbound.2 tokens htokens
  · dsimp only
    split
    · exact .inl rfl
    · exact .inr rfl

theorem refusalChange_offers (refreshToken : Option JsString) :
    Offers .refusal (refusalChange refreshToken) := by
  intro grant hconnected _ world _
  rw [refusalChange]
  split
  case isFalse => exact unchanged_offer
  case isTrue =>
  refine returned_safe fun now _ _ next hnext => ?_
  cases hnext
  exact allowed_kept rfl hconnected rfl rfl (.inl rfl)
    (fun hbound => ⟨hbound.1, nofun⟩) (.inl rfl)

theorem outcomeChange_offers (snapshot : Snapshot) (outcome : TokenOutcome) :
    Offers (.outcome snapshot outcome) (outcomeChange snapshot outcome) := by
  intro grant hconnected _ world _
  rw [outcomeChange]
  split
  case isTrue => exact unchanged_offer
  case isFalse hcurrent =>
  split
  case isTrue => exact unchanged_offer
  case isFalse =>
  refine returned_safe fun now _ _ next hnext => ?_
  cases hnext
  have hsnapshot : (grant.epoch = snapshot.epoch ∧
      grant.revision = snapshot.revision) ∧ ¬grant.body.tokens = none := by
    simpa using hcurrent
  obtain ⟨⟨hepoch, hrevision⟩, -⟩ := hsnapshot
  exact allowed_kept rfl hconnected rfl rfl
    (.inr ⟨snapshot, outcome, rfl, hepoch, hrevision, rfl⟩) id (.inr rfl)

/-! ## Refreshes and resets -/

theorem tokens_of_holdsRefreshToken {grant : Grant}
    {requested : Option JsString} (hholds : holdsRefreshToken grant requested = true) :
    grant.body.tokens ≠ none := by
  intro hnone
  cases requested with
  | none => cases hholds
  | some requested =>
      rw [holdsRefreshToken, hnone] at hholds
      cases hholds

theorem storeRefresh_safe (provider : Provider) (epoch : Epoch)
    (requested : Option JsString) (tokens : OAuthTokens)
    (issuer : Option JsString) (issuedAt attempts : ℕ)
    (hheld : grantDiscipline.Held held world) :
    Safe grantDiscipline (Lawfully _)
      (storeRefresh provider epoch requested tokens issuer issuedAt attempts)
      held world := by
  induction attempts generalizing held world with
  | zero => exact lawfully_done _
  | succ attempts ih =>
      refine Safe.call hheld (readGrant_safe provider) ?_
      rintro (fault | ⟨raw, grant⟩) own read hreading hread hfound
      · exact ih hread
      dsimp only
      split
      · exact lawfully_done _
      case isFalse hcurrent =>
      split
      · exact lawfully_done _
      case isFalse hasked =>
      have hholds : holdsRefreshToken grant requested = true := by
        simpa using hasked
      split
      · exact ih hread
      case h_2 next hnext =>
      have hepoch : grant.epoch = epoch := by
        by_contra hother
        simp [hother] at hcurrent
      have hallowed : Allowed (.refresh epoch) grant next ∅ := by
        rw [nextTokenGrant_cases hnext]
        refine allowed_obtained rfl ?_ ?_ ?_
        · intro begun hbegun
          rw [hepoch]
          exact Option.some.inj hbegun
        · intro _ hvacant
          exact absurd hvacant.1 (tokens_of_holdsRefreshToken hholds)
        · intro hbound
          refine ⟨hbound.1, fun written hwritten => ?_⟩
          cases hwritten
          rfl
      refine Safe.call hread (encodeGrant_safe provider next) ?_
      rintro (fault | stored) more encoded hencoding hencoded hstored
      · exact ih hencoded
      have hseen := hfound.1.later (log_of_rely hencoding)
      refine compareAndSet_safe hencoded hseen hfound.2
        (hstored ▸ hallowed.mono (Set.empty_subset _)) nofun ?_ ?_ ?_
      · exact fun _ _ _ => lawfully_done _
      · exact fun _ _ hmissed => ih hmissed
      · exact fun _ _ _ _ hlost _ => ih hlost

/-- A carried client keeps the server it was written under. -/
theorem bound_carriable {provider : Provider} {grant : Grant} {now : ℕ}
    (hbound : Bound grant.body) :
    Bound ((carriableClient provider grant now).getD {}) := by
  rw [carriableClient]
  split
  case h_1 issuer client hissuer hclient =>
    dsimp only
    split
    · exact bound_empty none
    · refine ⟨fun carried hcarried => ?_, nofun⟩
      cases hcarried
      exact (hbound.1 client hclient).trans hissuer
  case h_2 => exact bound_empty none

/-- A reset's grant: a new epoch, and at most the client. -/
theorem allowed_reset {provider : Provider} {options : ResetOptions}
    {grant : Grant} {now id : ℕ} (hid : id ∈ held) :
    Allowed .reset grant
      { epoch := if options.operatorDisconnected then .disconnected id
          else .active id
        body := (if options.preserveClient && !options.operatorDisconnected then
          carriableClient provider grant now else none).getD {} } held where
  fenced := nofun
  obtained := nofun
  disconnected := by
    intro hdisconnected _
    cases hoperator : options.operatorDisconnected with
    | true =>
        rw [Bool.not_true, Bool.and_false]
        exact ⟨rfl, rfl, rfl⟩
    | false =>
        rw [hoperator] at hdisconnected
        cases hdisconnected
  bound := by
    intro hbound
    dsimp only
    split
    · exact bound_carriable hbound
    · exact bound_empty none
  epoch := by
    refine .inr ⟨rfl, id, hid, ?_⟩
    dsimp only
    split <;> rfl

theorem replaceEpoch_safe (provider : Provider) (options : ResetOptions)
    (id attempts : ℕ) (hid : id ∈ held)
    (hheld : grantDiscipline.Held held world) :
    Safe grantDiscipline (Lawfully _)
      (replaceEpoch provider options
        (if options.operatorDisconnected then .disconnected id else .active id)
        attempts) held world := by
  induction attempts generalizing held world with
  | zero => exact lawfully_done _
  | succ attempts ih =>
      refine andThen_safe hheld (readGrant_safe provider) ?_
      rintro ⟨raw, grant⟩ own read hreading hread hfound
      dsimp only
      split
      · exact lawfully_done _
      refine wait_safe trivial fun timed htiming htimed now _ => ?_
      refine andThen_safe htimed (encodeGrant_safe provider _) ?_
      intro stored more encoded hencoding hencoded hstored
      have hseen := hfound.1.later
        ((log_of_rely htiming).trans (log_of_rely hencoding))
      have hmine : id ∈ more ∪ (own ∪ held) := .inr (.inr hid)
      refine compareAndSet_safe hencoded hseen hfound.2
        (hstored ▸ allowed_reset hmine) nofun ?_ ?_ ?_
      · exact fun _ _ _ => lawfully_done _
      · exact fun _ _ hmissed => ih hmine hmissed
      · exact fun _ _ _ _ _ _ => lawfully_done _

theorem performReset_safe (provider : Provider) (options : ResetOptions) :
    Safe grantDiscipline (Lawfully _) (performReset provider options) held
      world :=
  drawn_safe fun id _ _ hid hown _ =>
    replaceEpoch_safe provider options id maxGrantWrites hid hown

end Connecta.GrantStore
