import Connecta.Tokens.TokenRotations

/-!
# Adoptions

An adoption commits a record with the digest of the legacy record it was asked
for, over an absent slot, for the agent that claimed the legacy record.  Whatever
it completes afterwards is a record its agent's slot named during the call.
-/

namespace Connecta.AccessTokens

open Connecta.Programs
open Connecta.Programs.Program (bind_assoc)
open Connecta.Runtime

variable {digests : Digests} {init world : World} {held : Set Name}

/-! ## The legacy record -/

theorem Bears.later {now : World} {id : ℕ} {digest : JsString}
    (hbears : Bears world id digest) (hnamed : world.Named id)
    (hlater : Later world now) : Bears now id digest := by
  obtain ⟨record, hrecord, hdigest⟩ := hbears
  exact ⟨record, (hlater.named id hnamed).trans hrecord, hdigest⟩

theorem NamedSince.named {begun : World} {agent : Agent} {id : ℕ}
    (hnamed : NamedSince begun world agent id) : world.Named id :=
  ⟨agent, List.map_subset tokenOf (List.drop_subset _ _) hnamed⟩

/-- A record without an agent was there from the beginning. -/
theorem initial_of_unbound (hvalid : Valid init world) {record : Record}
    (hrecord : world.records record.id = some (.readable record))
    (hagent : record.agent = none) :
    init.records record.id = some (.readable record) := by
  have hearly : record.id < init.drawn := by
    by_contra hlate
    exact hvalid.agents _ record hrecord (not_lt.mp hlate) hagent
  exact (hvalid.initial _ hearly).symm.trans hrecord

/-- The lookup of a legacy digest names the legacy record only if it did so from
the beginning, or if a slot named that record then. -/
theorem legacy_of_lookup (hinit : Initial init) (hvalid : Valid init world)
    {legacy : Record}
    (hrecord : init.records legacy.id = some (.readable legacy))
    (hagent : legacy.agent = none)
    (hlookup : world.lookups legacy.tokenHash = some (.readable legacy.id)) :
    Legacy init legacy.id legacy.tokenHash := by
  have hearly := hinit.records _ _ hrecord
  refine ⟨legacy, hrecord, hagent, rfl, ?_⟩
  rcases hvalid.lookups _ (hinit.digests _ _ hrecord) with
    hsame | ⟨id, hmoved, ⟨agent, hnamed⟩, -⟩
  · exact .inl (hsame.symm.trans hlookup)
  · rw [hlookup] at hmoved
    cases hmoved
    refine .inr ⟨legacy.id, ?_, legacy, hrecord, rfl⟩
    obtain ⟨value, hvalue, htoken⟩ := List.mem_map.mp hnamed
    rcases hvalid.origin agent value hvalue with hfirst | ⟨commit, hcommit, -, hstored⟩
    · rw [hfirst] at htoken
      exact named_of_slot htoken
    · rw [hstored] at htoken
      obtain ⟨hwritten, -⟩ := hvalid.commits commit hcommit _ htoken
      exact absurd hearly (not_lt.mpr (hvalid.written _ hwritten))

/-- An adoption that resolves found its agent's slot naming a record with the
digest of the legacy record, or brought it there. -/
def Adopted (init begun : World) (agent : Agent) (legacyId : ℕ) (_ : Option ℕ)
    (_ : Reply) (world : World) : Prop :=
  ∃ legacy id, init.records legacyId = some (.readable legacy) ∧
    NamedSince begun world agent id ∧ Bears world id legacy.tokenHash

/-! ## Completing -/

theorem completeAdoption_safe {Result : Type}
    {promise : Result → Set Name → World → Prop} {agent : Agent}
    {tokenId issuedAt attempts : ℕ} {legacy : Record}
    {next : Except TokenFault AgentTokenSlot → TokenProgram Result}
    (hheld : (tokenDiscipline digests init).Held held world)
    (hnamed : world.Named tokenId)
    (hbears : Bears world tokenId legacy.tokenHash)
    (hnext : ∀ own now, held ⊆ own → Later world now →
      (tokenDiscipline digests init).Held own now → ∀ result,
        (result = .error .conflict → tokenOf (now.slots agent) ≠ some tokenId) →
        (∀ fault, result = .error fault →
          fault = .conflict ∨ fault = .outcomeUnknown) →
          Safe (tokenDiscipline digests init) promise (next result) own now) :
    Safe (tokenDiscipline digests init) promise
      (completeAdoption digests agent tokenId issuedAt legacy attempts >>= next)
      held world := by
  induction attempts generalizing held world with
  | zero =>
      exact hnext held world subset_rfl (Later.refl world) hheld _ (by simp)
        (by simp)
  | succ attempts ih =>
      refine quiet_safe trivial fun opened hopening hopened reply _ => ?_
      have hunknown : Safe (tokenDiscipline digests init) promise
          (next (.error .outcomeUnknown)) held opened :=
        hnext held opened subset_rfl hopening hopened _ (by simp) (by simp)
      rcases reply with loss | isOpen
      · exact hunknown
      cases isOpen with
      | false => exact hunknown
      | true =>
      refine quiet_safe trivial fun now hlooking hnow reply _ => ?_
      have hlater := hopening.trans hlooking
      have hagain : ∀ after, Later now after →
          (tokenDiscipline digests init).Held held after →
            Safe (tokenDiscipline digests init) promise
              (completeAdoption digests agent tokenId issuedAt legacy attempts >>=
                next) held after := by
        intro after hafter hheld
        have hrest := hlater.trans hafter
        exact ih hheld (hrest.names hnamed) (hbears.later hnamed hrest)
          fun own last hown hlast => hnext own last hown (hrest.trans hlast)
      rcases reply with loss | current
      · cases loss with
        | unknown =>
            exact hnext held now subset_rfl hlater hnow _ (by simp) (by simp)
        | failed => exact hagain now (Later.refl now) hnow
      by_cases hmine : current = some (.readable tokenId)
      · simp only [if_pos hmine]
        exact hnext held now subset_rfl hlater hnow _ (by simp) (by simp)
      by_cases htheirs : current = some (.readable legacy.id)
      case neg =>
        simp only [if_neg hmine, if_pos htheirs]
        change Safe _ _ ((revokeIfNamed agent tokenId >>= _) >>= next) held now
        rw [bind_assoc]
        refine revokeIfNamed_safe fun own after hown hafter hheld reply hgone => ?_
        rcases reply with loss | _
        · exact hnext own after hown (hlater.trans hafter) hheld _ (by simp)
            (by simp)
        · exact hnext own after hown (hlater.trans hafter) hheld _
            (fun _ => hgone rfl) (by simp)
      simp only [if_neg hmine, if_neg (not_not.mpr htheirs)]
      refine moveLookup_safe ?_ ?_
      · intro after hafter _
        have hrest := hlater.trans hafter
        exact ⟨tokenId, rfl, hrest.names hnamed, hbears.later hnamed hrest⟩
      · intro after hafter hheld reply
        rcases reply with loss | moved
        · cases loss with
          | unknown =>
              exact hnext held after subset_rfl (hlater.trans hafter) hheld _
                (by simp) (by simp)
          | failed => exact hagain after hafter hheld
        · cases moved with
          | false => exact hagain after hafter hheld
          | true =>
              exact hnext held after subset_rfl (hlater.trans hafter) hheld _
                (by simp) (by simp)

section Adopting

variable {agent : Agent} {begun : World} {legacy : Record}

/-- The slot of the agent named a record with the legacy digest. -/
structure Carried (begun world : World) (agent : Agent) (legacy : Record)
    (tokenId : ℕ) : Prop where
  named : NamedSince begun world agent tokenId
  bears : Bears world tokenId legacy.tokenHash

theorem Carried.later {now : World} {tokenId : ℕ}
    (hcarried : Carried begun world agent legacy tokenId)
    (hlater : Later world now) : Carried begun now agent legacy tokenId where
  named := hcarried.named.later hlater
  bears := hcarried.bears.later hcarried.named.named hlater

theorem Carried.adopted {tokenId : ℕ} {created : Option ℕ} {reply : Reply}
    (hcarried : Carried begun world agent legacy tokenId)
    (hlegacy : init.records legacy.id = some (.readable legacy)) :
    Adopted init begun agent legacy.id created reply world :=
  ⟨legacy, tokenId, hlegacy, hcarried.named, hcarried.bears⟩

theorem settleAdoption_safe {tokenId issuedAt : ℕ} {created : Option ℕ}
    (hheld : (tokenDiscipline digests init).Held held world)
    (hlegacy : init.records legacy.id = some (.readable legacy))
    (hcarried : Carried begun world agent legacy tokenId)
    (hsecure : ∀ own now, held ⊆ own → Later world now →
      (tokenDiscipline digests init).Held own now →
      tokenOf (now.slots agent) ≠ some tokenId →
        Secure digests init created own now) :
    Safe (tokenDiscipline digests init)
      (Reporting (Adopted init begun agent legacy.id))
      (finishAdoption digests agent tokenId issuedAt legacy
        (settleAdoption created)) held world := by
  refine completeAdoption_safe hheld hcarried.named.named hcarried.bears ?_
  intro own now hown hnow hheld result hconflict hfaults
  rcases result with fault | view
  · refine refuse_safe fun hwithdrawn => ?_
    rcases hfaults fault rfl with rfl | rfl
    · exact hsecure own now hown hnow hheld (hconflict rfl)
    · rcases hwithdrawn with h | h | h <;> cases h
  · exact settle_safe fun after hafter _ =>
      (hcarried.later (hnow.trans hafter)).adopted hlegacy

/-! ## Committing -/

/-- The record of an adoption, which nobody else can commit. -/
structure Adopting (init : World) (agent : Agent) (legacy record : Record)
    (held : Set Name) : Prop where
  owner : record.agent = some agent
  digest : record.tokenHash = legacy.tokenHash
  late : init.drawn ≤ record.id
  drop : (record.id, Role.drop) ∈ held
  commit : (record.id, Role.commit) ∈ held

theorem afterLostAdoption_safe {expect : Option JsString} {record : Record}
    (hlegacy : init.records legacy.id = some (.readable legacy))
    (hadopting : Adopting init agent legacy record held)
    (hbegun : Later begun world) :
    Safe (tokenDiscipline digests init)
      (Reporting (Adopted init begun agent legacy.id))
      (afterLostAdoption digests agent expect legacy record) held world := by
  refine dropRecord_safe hadopting.drop hadopting.late ?_
  intro own dropped hdropping _ hkept _
  have hcommit := hkept _ hadopting.commit (by simp)
  split
  · exact refuse_safe fun _ => secure_held hcommit
  refine readSlot_safe fun read hreading hread reply hslot => ?_
  rcases reply with loss | slot
  · exact lost_safe loss
  refine carries_safe hread fun now hnow hheld reply hcarries => ?_
  rcases reply with loss | same
  · exact lost_safe loss
  cases same with
  | false =>
      rcases slot with _ | ⟨tokenId, issuedAt⟩ | ⟨revokedAt, carried⟩ <;>
        exact refuse_safe fun _ => secure_held hcommit
  | true =>
  obtain ⟨tokenId, issuedAt, rfl, hbears⟩ := hcarries rfl
  have hnames : tokenOf (read.slots agent) = some tokenId := by
    rw [hslot _ rfl]
    rfl
  refine settleAdoption_safe hheld hlegacy ⟨?_, hbears⟩ ?_
  · exact (namedSince_of_slot (hbegun.trans (hdropping.trans hreading))
      hnames).later hnow
  · intro more after hmore _ _ _
    exact secure_held (hmore hcommit)

theorem commitAdoption_safe (hinit : Initial init) {expect : Option JsString}
    {record : Record} (hlegacy : Legacy init legacy.id legacy.tokenHash)
    (hrecord : init.records legacy.id = some (.readable legacy))
    (hclaim : world.claims legacy.id = some (.readable agent))
    (hexpect : ∀ revision, expect = some revision →
      digests.slotRevision agent none = revision)
    (hwritten : Written world record)
    (hadopting : Adopting init agent legacy record held)
    (hbegun : Later begun world) :
    Safe (tokenDiscipline digests init)
      (Reporting (Adopted init begun agent legacy.id))
      (commitAdoption digests agent expect legacy record) held world := by
  have hfinishes : ∀ (own : Set Name) (now : World), Later world now →
      (tokenDiscipline digests init).Held own now →
      tokenOf (now.slots agent) = some record.id →
        Safe (tokenDiscipline digests init)
          (Reporting (Adopted init begun agent legacy.id))
          (finishAdoption digests agent record.id legacy.createdAt legacy
            (settleAdoption (some record.id))) own now := by
    intro own now hnow hheld hslot
    have hcommitted := (hwritten.later hnow).committed hinit hheld.valid hslot
    refine settleAdoption_safe hheld hrecord ⟨?_, ?_⟩ ?_
    · exact namedSince_of_slot (hbegun.trans hnow) hslot
    · exact ⟨record, hcommitted.record, hadopting.digest⟩
    · intro more after _ hafter hheld hmoved
      exact secure_gone ((hcommitted.later hafter).gone hinit hheld.valid
        hadopting.owner hmoved)
  refine swapSlot_safe ?_ hexpect ?_ ?_ ?_ ?_
  · rintro ⟨id, role⟩ ⟨hid, hrole⟩
    cases hid
    cases role with
    | set => exact absurd rfl hrole
    | drop => exact hadopting.drop
    | commit => exact hadopting.commit
  · intro now hnow _ hfresh _
    obtain ⟨hunnamed, hundropped⟩ := hfresh record.id rfl
    have hstored := hwritten.later hnow
    exact .adoption record.id legacy.createdAt legacy.id record.tokenHash expect
      rfl rfl rfl (hstored.owned hadopting.owner hundropped)
      (hadopting.digest ▸ hlegacy) (hnow.claims _ _ hclaim) hunnamed
      hstored.written
  · intro own now later _ hlater _ _ hwrite hheld _
    refine hfinishes own later hlater hheld ?_
    rw [hwrite]
    exact congrArg tokenOf (slots_write now _)
  · intro now hnow _
    exact afterLostAdoption_safe hrecord hadopting (hbegun.trans hnow)
  · intro own now hnow hheld _ loss
    cases loss with
    | unknown => exact unknown_safe
    | failed =>
        refine slotNames_safe hheld fun read hreading hread reply hnames => ?_
        rcases reply with loss | named
        · exact lost_safe loss
        · cases named with
          | false => exact lost_safe .failed
          | true =>
              exact hfinishes own read (hnow.trans hreading) hread (hnames rfl)

theorem publishAdoption_safe (hinit : Initial init) {expect : Option JsString}
    (hlegacy : Legacy init legacy.id legacy.tokenHash)
    (hrecord : init.records legacy.id = some (.readable legacy))
    (hclaim : world.claims legacy.id = some (.readable agent))
    (hexpect : ∀ revision, expect = some revision →
      digests.slotRevision agent none = revision)
    (hbegun : Later begun world) :
    Safe (tokenDiscipline digests init)
      (Reporting (Adopted init begun agent legacy.id))
      (publishAdoption digests agent expect legacy) held world := by
  refine draw_safe ?_ fun _ _ _ loss => lost_safe loss
  intro id own drawn hdrawn _ _ hroles hlate
  refine quiet_safe trivial fun timed htiming _ reply _ => ?_
  rcases reply with loss | createdAt
  · exact lost_safe loss
  have hlater := hdrawn.trans htiming
  have hmine : init.drawn ≤ (adoptionRecord agent legacy id createdAt).id := hlate
  refine setRecord_safe (hroles .set) hmine (by simp [adoptionRecord]) ?_ ?_
  · intro own written hwriting hheld hkept hwritten hstored
    have hadopting : Adopting init agent legacy
        (adoptionRecord agent legacy id createdAt) own :=
      ⟨rfl, rfl, hlate, hkept _ (hroles .drop) (by simp),
        hkept _ (hroles .commit) (by simp)⟩
    refine ifAborted_safe ?_ ?_
    · intro asked _ _
      refine dropRecord_safe hadopting.drop hlate fun more after _ _ hstays _ => ?_
      exact refuse_safe fun _ =>
        secure_held (hstays _ hadopting.commit (by simp))
    · intro asked hasking _
      have hrest := hlater.trans (hwriting.trans hasking)
      exact commitAdoption_safe hinit hlegacy hrecord (hrest.claims _ _ hclaim)
        hexpect ((written_of_records hwritten hstored).later hasking) hadopting
        (hbegun.trans hrest)
  · intro own lost _ _ hkept loss
    refine dropRecord_safe (hkept _ (hroles .drop) (by simp)) hlate ?_
    intro more after _ _ hstays _
    exact undecided_safe
      (secure_held (hstays _ (hkept _ (hroles .commit) (by simp)) (by simp)))

/-! ## Adopting -/

theorem takeLegacy_safe (hinit : Initial init) {agents : List Agent}
    {expect : Option JsString} {claim : Option (Stored Agent)}
    (hagent : legacy.agent = none)
    (hrecord : init.records legacy.id = some (.readable legacy))
    (hclaim : ∀ value, claim = some value →
      world.claims legacy.id = some (.readable agent))
    (hexpect : ∀ revision, expect = some revision →
      digests.slotRevision agent none = revision)
    (hbegun : Later begun world) :
    Safe (tokenDiscipline digests init)
      (Reporting (Adopted init begun agent legacy.id))
      (takeLegacy digests agents agent expect legacy claim) held world := by
  have hnone : ∀ (fault : TokenFault) (own : Set Name) (now : World),
      Safe (tokenDiscipline digests init)
        (Reporting (Adopted init begun agent legacy.id)) (refuse none fault) own
        now :=
    fun _ _ _ => refuse_safe fun _ => secure_none
  refine quiet_safe trivial fun looked hlooking hlooked reply hserved => ?_
  rcases reply with loss | lookup
  · exact undecided_safe secure_none
  by_cases hlookup : lookup = some (.readable legacy.id)
  case neg =>
    simp only [if_pos hlookup]
    exact hnone _ _ looked
  simp only [if_neg (not_not.mpr hlookup)]
  have hlegacy := legacy_of_lookup hinit hlooked.valid hrecord hagent
    ((hserved lookup rfl).1.symm.trans hlookup)
  refine agentCarrying_safe hlooked fun read hreading _ reply => ?_
  rcases reply with loss | _ | holder
  · exact undecided_safe secure_none
  case ok.some => exact hnone _ _ read
  refine ifAborted_safe (fun now _ _ => hnone _ _ now) fun ready hreadying _ => ?_
  have hlater := hlooking.trans (hreading.trans hreadying)
  cases claim with
  | some value =>
      exact publishAdoption_safe hinit hlegacy hrecord
        (hlater.claims _ _ (hclaim value rfl)) hexpect (hbegun.trans hlater)
  | none =>
  refine setClaim_safe ?_ fun _ _ _ loss => lost_safe loss
  intro claimed hclaiming _ won hwon
  have hrest := hbegun.trans (hlater.trans hclaiming)
  cases won with
  | true =>
      exact publishAdoption_safe hinit hlegacy hrecord (hwon rfl) hexpect hrest
  | false =>
  refine quiet_safe trivial fun now hnow _ reply hserved => ?_
  rcases reply with loss | other
  · exact lost_safe loss
  by_cases hother : other = some (.readable agent)
  case neg =>
    simp only [if_neg hother]
    exact hnone _ _ now
  simp only [if_pos hother]
  refine publishAdoption_safe hinit hlegacy hrecord ?_ hexpect (hrest.trans hnow)
  exact (hserved other rfl).1.symm.trans hother

theorem adoptInto_safe (hinit : Initial init) {agents : List Agent}
    {expect : Option JsString} {claim : Option (Stored Agent)}
    (hagent : legacy.agent = none)
    (hrecord : init.records legacy.id = some (.readable legacy))
    (hclaim : ∀ value, claim = some value →
      world.claims legacy.id = some (.readable agent))
    (hbegun : Later begun world) :
    Safe (tokenDiscipline digests init)
      (Reporting (Adopted init begun agent legacy.id))
      (adoptInto digests agents agent expect legacy claim) held world := by
  have hnone : ∀ (fault : TokenFault) (own : Set Name) (now : World),
      Safe (tokenDiscipline digests init)
        (Reporting (Adopted init begun agent legacy.id)) (refuse none fault) own
        now :=
    fun _ _ _ => refuse_safe fun _ => secure_none
  refine readSlot_safe fun read hreading hread reply hslot => ?_
  rcases reply with loss | slot
  · exact undecided_safe secure_none
  cases hmatches : matchesExpected digests agent slot expect with
  | false =>
      simp only [hmatches, Bool.not_false, if_true]
      exact hnone _ _ read
  | true =>
  simp only [hmatches, Bool.not_true, Bool.false_eq_true, if_false]
  rcases slot with _ | ⟨tokenId, issuedAt⟩ | ⟨revokedAt, carried⟩
  · refine takeLegacy_safe hinit hagent hrecord ?_ (matches_of_not hmatches)
      (hbegun.trans hreading)
    exact fun value hvalue => hreading.claims _ _ (hclaim value hvalue)
  · refine carries_safe hread fun now hnow hheld reply hcarries => ?_
    rcases reply with loss | same
    · exact undecided_safe secure_none
    cases same with
    | false => exact hnone _ _ now
    | true =>
    obtain ⟨named, time, hsame, hbears⟩ := hcarries rfl
    cases hsame
    have hnames : tokenOf (read.slots agent) = some tokenId := by
      rw [hslot _ rfl]
      rfl
    have hcarried : Carried begun now agent legacy tokenId :=
      ⟨(namedSince_of_slot (hbegun.trans hreading) hnames).later hnow, hbears⟩
    refine completeAdoption_safe hheld hcarried.named.named hbears ?_
    intro own done _ hdone _ result _ _
    rcases result with fault | view
    · exact undecided_safe secure_none
    refine quiet_safe trivial fun asked hasking _ reply _ => ?_
    rcases reply with loss | isOpen
    · exact undecided_safe secure_none
    cases isOpen with
    | false => exact undecided_safe secure_none
    | true =>
        intro last hrely _
        refine ⟨fun _ _ => ?_, by simp⟩
        exact (hcarried.later (hdone.trans (hasking.trans
          (later_of_rely hrely)))).adopted hrecord
  · exact hnone _ _ read

theorem adopt_safe (hinit : Initial init) {agents : List Agent} {legacyId : ℕ}
    {expect : Option JsString} (hbegun : Later begun world) :
    Safe (tokenDiscipline digests init)
      (Reporting (Adopted init begun agent legacyId))
      (adopt digests agents (some legacyId) agent expect) held world := by
  have hnone : ∀ (fault : TokenFault) (own : Set Name) (now : World),
      Safe (tokenDiscipline digests init)
        (Reporting (Adopted init begun agent legacyId)) (refuse none fault) own
        now :=
    fun _ _ _ => refuse_safe fun _ => secure_none
  refine ifAborted_safe (fun now _ _ => hnone _ _ now) fun started hstarting _ => ?_
  split
  · exact hnone _ _ started
  refine read_safe fun read hreading hread reply hfound => ?_
  rcases reply with loss | _ | legacy
  · exact undecided_safe secure_none
  · exact hnone _ _ read
  obtain ⟨hstored, rfl⟩ := hfound legacy rfl
  cases hbound : legacy.agent.isSome || legacy.principal || legacy.revoked with
  | true =>
      simp only [hbound, if_true]
      exact hnone _ _ read
  | false =>
  simp only [hbound, Bool.false_eq_true, if_false]
  have hagent : legacy.agent = none := by
    rw [Bool.or_eq_false_iff, Bool.or_eq_false_iff] at hbound
    exact Option.not_isSome_iff_eq_none.mp (Bool.eq_false_iff.mp hbound.1.1)
  have hrecord := initial_of_unbound hread.valid hstored hagent
  refine quiet_safe trivial fun now hnow _ reply hserved => ?_
  rcases reply with loss | claim
  · exact undecided_safe secure_none
  have hclaims := (hserved claim rfl).1
  by_cases htaken : claim ≠ none ∧ claim ≠ some (.readable agent)
  · simp only [if_pos htaken]
    exact hnone _ _ now
  simp only [if_neg htaken]
  refine adoptInto_safe hinit hagent hrecord ?_
    (hbegun.trans (hstarting.trans (hreading.trans hnow)))
  rintro value rfl
  by_contra hother
  exact htaken ⟨by simp, fun hsame => hother (hclaims.symm.trans hsame)⟩

/-- An adoption of what cannot be an id is refused. -/
theorem adoptNothing_safe {agents : List Agent} {expect : Option JsString} :
    Safe (tokenDiscipline digests init) (Reporting fun _ _ _ => False)
      (adopt digests agents none agent expect) held world := by
  refine ifAborted_safe (fun _ _ _ => refuse_safe fun _ => secure_none) ?_
  intro started _ _
  split <;> exact refuse_safe fun _ => secure_none

end Adopting

end Connecta.AccessTokens
