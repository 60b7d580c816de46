import Connecta.Tokens.TokenMethods

/-!
# Rotations and revocations

A revocation replaces the very slot it was built over, so it stores what that
slot had not stored when its clock was read.  A rotation holds the id of its
record until the slot names it.
-/

namespace Connecta.AccessTokens

open Connecta.Programs
open Connecta.Programs.Program (bind_assoc)
open Connecta.Runtime

variable {digests : Digests} {init world : World} {held : Set Name}

/-! ## Building a revocation -/

/-- A revocation over the slot that was read before it was built. -/
theorem revocation_stores {agent : Agent} {slot : Option StoredSlot}
    {time revocationId : ℕ} {purpose : Purpose} {read built now : World}
    (hissued : issuedSlot slot = true)
    (hread : read.slots agent = slot.map .readable)
    (hbuilt : built.clashed = true ∨
      some (.readable (.revoked time (some revocationId))) ∉ built.values agent)
    (hfirst : Later read built) (hsecond : Later built now)
    (hvalid : Valid init now) (hslot : now.slots agent = slot.map .readable) :
    Stores init now {
      agent := agent
      replaced := slot
      stored := .revoked time (some revocationId)
      purpose := purpose } := by
  refine .revocation time (some revocationId) rfl hissued ?_
  refine hbuilt.imp hsecond.clashed fun hfresh hstored => hfresh ?_
  rcases slot with _ | ⟨tokenId, issuedAt⟩ | ⟨revokedAt, carried⟩
  · cases hissued
  · have hbefore : tokenOf (read.slots agent) = some tokenId := by
      rw [hread]
      rfl
    have hafter : tokenOf (now.slots agent) = some tokenId := by
      rw [hslot]
      rfl
    have hunmoved := values_unmoved hvalid (hfirst.trans hsecond) hbefore hafter
    rw [hunmoved] at hstored
    exact (hfirst.values agent).subset hstored
  · cases hissued

section Steps

variable {Result : Type} {promise : Result → Set Name → World → Prop}

/-- The clock of a revocation is read, and the slot it was built over replaced. -/
theorem revocation_safe {agent : Agent} {slot : Option StoredSlot}
    {revocationId : ℕ} (purpose : Purpose) {read : World}
    {next : Except Loss ℕ → TokenProgram Result}
    {committed : ℕ → Except Loss Bool → TokenProgram Result}
    (hissued : issuedSlot slot = true)
    (hread : read.slots agent = slot.map .readable) (hsince : Later read world)
    (hexpected : ∀ revision, purpose.expect = some revision →
      digests.slotRevision agent slot = revision)
    (hnext : ∀ time, next (.ok time) = .ask (.swapSlot agent slot
      (.revoked time (some revocationId)) purpose) (committed time))
    (hfailed : ∀ now, Later world now →
      (tokenDiscipline digests init).Held held now → ∀ loss,
        Safe (tokenDiscipline digests init) promise (next (.error loss)) held now)
    (hwon : ∀ own now time, held ⊆ own → Later world now →
      (tokenDiscipline digests init).Held own now →
      now.slots agent = some (.readable (.revoked time (some revocationId))) →
        Safe (tokenDiscipline digests init) promise (committed time (.ok true))
          own now)
    (hrest : ∀ own now time, held ⊆ own → Later world now →
      (tokenDiscipline digests init).Held own now → ∀ reply, reply ≠ .ok true →
        Safe (tokenDiscipline digests init) promise (committed time reply) own
          now) :
    Safe (tokenDiscipline digests init) promise
      (.ask (.revokedAt agent revocationId) next) held world := by
  refine stamp_safe ?_ hfailed
  intro asked built hasked hbuilt hheld time hfresh hvalues
  rw [hnext]
  rw [← hvalues] at hfresh
  have hnames : tokenNames (.swapSlot agent slot
      (.revoked time (some revocationId)) purpose) = ∅ := by
    ext name
    simp [tokenNames, StoredSlot.tokenId?]
  have hmore : ∀ own : Set Name, (∀ name ∈ held, name ∉ tokenNames (.swapSlot agent
      slot (.revoked time (some revocationId)) purpose) → name ∈ own) →
      held ⊆ own := by
    intro own hown name hname
    refine hown name hname ?_
    rw [hnames]
    exact Set.notMem_empty name
  refine swapSlot_safe ?_ hexpected ?_ ?_ ?_ ?_
  · rw [hnames]
    exact Set.empty_subset held
  · intro now hnow hvalid _ hslot
    exact revocation_stores hissued hread hfresh (hsince.trans hbuilt) hnow hvalid
      hslot
  · intro own now later _ hlater _ _ hwrite hown hkept
    refine hwon own later time (hmore own hkept) (hbuilt.trans hlater) hown ?_
    rw [hwrite]
    exact slots_write now _
  · intro now hnow hmissed
    exact hrest held now time subset_rfl (hbuilt.trans hnow) hmissed (.ok false)
      (by simp)
  · intro own now hnow hown hkept loss
    exact hrest own now time (hmore own hkept) (hbuilt.trans hnow) hown
      (.error loss) (by simp)

/-- A revocation without a revision. -/
theorem expects_nothing {purpose : Purpose} {agent : Agent}
    {slot : Option StoredSlot} (hpurpose : purpose.expect = none) :
    ∀ revision, purpose.expect = some revision →
      digests.slotRevision agent slot = revision := by
  intro revision hrevision
  rw [hpurpose] at hrevision
  cases hrevision

theorem issuedSlot_of_names {slot : Option StoredSlot} {tokenId : ℕ}
    (hnames : namesToken slot tokenId = true) : issuedSlot slot = true := by
  rcases slot with _ | ⟨named, issuedAt⟩ | ⟨revokedAt, carried⟩
  · cases hnames
  · rfl
  · cases hnames

theorem tokenOf_of_names {slot : Option StoredSlot} {tokenId : ℕ}
    (hnames : namesToken slot tokenId = true) :
    tokenOf (slot.map .readable) = some tokenId := by
  cases slot with
  | none => cases hnames
  | some slot => exact of_decide_eq_true hnames

theorem tokenOf_ne_of_names {slot : Option StoredSlot} {tokenId : ℕ}
    {stored : Option (Stored StoredSlot)} (hstored : stored = slot.map .readable)
    (hnames : namesToken slot tokenId = false) :
    tokenOf stored ≠ some tokenId := by
  rw [hstored]
  cases slot with
  | none => simp [tokenOf]
  | some slot => simpa [namesToken, tokenOf] using hnames

theorem revokeNamed_safe {agent : Agent} {tokenId revocationId attempts : ℕ}
    {next : Except Loss Unit → TokenProgram Result}
    (hheld : (tokenDiscipline digests init).Held held world)
    (hnext : ∀ own now, held ⊆ own → Later world now →
      (tokenDiscipline digests init).Held own now → ∀ reply,
        (reply = .ok () → tokenOf (now.slots agent) ≠ some tokenId) →
          Safe (tokenDiscipline digests init) promise (next reply) own now) :
    Safe (tokenDiscipline digests init) promise
      (revokeNamed agent tokenId revocationId attempts >>= next) held world := by
  induction attempts generalizing held world with
  | zero => exact hnext held world subset_rfl (Later.refl world) hheld _ (by simp)
  | succ attempts ih =>
      refine quiet_safe trivial fun opened hopening hopened reply _ => ?_
      rcases reply with loss | isOpen
      · exact hnext held opened subset_rfl hopening hopened _ (by simp)
      cases isOpen with
      | false => exact hnext held opened subset_rfl hopening hopened _ (by simp)
      | true =>
      change Safe _ _ ((readSlot agent >>= _) >>= next) held opened
      rw [bind_assoc]
      refine readSlot_safe fun now hreading hnow reply hread => ?_
      have hlater := hopening.trans hreading
      rcases reply with loss | slot
      · cases loss with
        | unknown => exact hnext held now subset_rfl hlater hnow _ (by simp)
        | failed =>
            exact ih hnow fun own after hown hafter =>
              hnext own after hown (hlater.trans hafter)
      have hslot := hread slot rfl
      cases hnames : namesToken slot tokenId with
      | false =>
          simp only [hnames, Bool.not_false, if_true]
          exact hnext held now subset_rfl hlater hnow _ fun _ =>
            tokenOf_ne_of_names hslot hnames
      | true =>
      simp only [hnames, Bool.not_true, Bool.false_eq_true, if_false]
      refine revocation_safe .compensation (issuedSlot_of_names hnames) hslot
        (Later.refl now) (expects_nothing rfl) (fun _ => rfl) ?_ ?_ ?_
      · intro after hafter hheld _
        exact hnext held after subset_rfl (hlater.trans hafter) hheld _ (by simp)
      · intro own after time hown hafter hheld hrevoked
        refine hnext own after hown (hlater.trans hafter) hheld _ fun _ => ?_
        rw [hrevoked]
        simp [tokenOf, StoredSlot.tokenId?]
      · intro own after time hown hafter hheld reply hreply
        have hagain : Safe (tokenDiscipline digests init) promise
            (revokeNamed agent tokenId revocationId attempts >>= next) own after :=
          ih hheld fun more last hmore hlast =>
            hnext more last (hown.trans hmore) (hlater.trans (hafter.trans hlast))
        rcases reply with loss | won
        · cases loss with
          | unknown =>
              exact hnext own after hown (hlater.trans hafter) hheld _ (by simp)
          | failed => exact hagain
        · cases won with
          | false => exact hagain
          | true => exact absurd rfl hreply

theorem revokeIfNamed_safe {agent : Agent} {tokenId : ℕ}
    {next : Except Loss Unit → TokenProgram Result}
    (hnext : ∀ own now, held ⊆ own → Later world now →
      (tokenDiscipline digests init).Held own now → ∀ reply,
        (reply = .ok () → tokenOf (now.slots agent) ≠ some tokenId) →
          Safe (tokenDiscipline digests init) promise (next reply) own now) :
    Safe (tokenDiscipline digests init) promise
      (revokeIfNamed agent tokenId >>= next) held world := by
  refine draw_safe ?_ ?_
  · intro id own now hnow hheld hmore _ _
    exact revokeNamed_safe hheld fun more after hown hafter =>
      hnext more after (hmore.trans hown) (hnow.trans hafter)
  · intro now hnow hheld loss
    exact hnext held now subset_rfl hnow hheld _ (by simp)

end Steps

/-! ## Revoking -/

section Revoking

variable {agent : Agent} {begun : World}

/-- A revoke that resolves found the slot at rest, or brought it there. -/
def Revoked (begun : World) (agent : Agent) (_ : Option ℕ) (_ : Reply)
    (world : World) : Prop :=
  RestedSince begun world agent

theorem settleRest_safe (slot : Option StoredSlot) {view : AgentTokenSlot}
    (hbegun : Later begun world) (hslot : world.slots agent = slot.map .readable)
    (hissued : issuedSlot slot = false) :
    Safe (tokenDiscipline digests init) (Reporting (Revoked begun agent))
      (settle none (.slot view)) held world :=
  settle_safe fun _ hnow _ =>
    (restedSince_of_slot hbegun hslot hissued).later hnow

theorem revokeCurrent_safe {revocationId attempts : ℕ}
    (hbegun : Later begun world) :
    Safe (tokenDiscipline digests init) (Reporting (Revoked begun agent))
      (revokeCurrent digests agent revocationId attempts) held world := by
  induction attempts generalizing held world with
  | zero => exact unknown_safe
  | succ attempts ih =>
      refine quiet_safe trivial fun opened hopening _ reply _ => ?_
      rcases reply with loss | isOpen
      · exact unknown_safe
      cases isOpen with
      | false => exact unknown_safe
      | true =>
      refine readSlot_safe fun now hreading _ reply hread => ?_
      have hlater := hbegun.trans (hopening.trans hreading)
      rcases reply with loss | slot
      · cases loss with
        | unknown => exact unknown_safe
        | failed => exact ih hlater
      have hslot := hread slot rfl
      cases hissued : issuedSlot slot with
      | false =>
          simp only [hissued, Bool.not_false, if_true]
          exact settleRest_safe _ hlater hslot hissued
      | true =>
      simp only [hissued, Bool.not_true, Bool.false_eq_true, if_false]
      refine revocation_safe (.revocation none) hissued hslot (Later.refl now)
        (expects_nothing rfl) (fun _ => rfl)
        (fun _ _ _ loss => lost_safe loss) ?_ ?_
      · intro own after time _ hafter _ hrevoked
        exact settleRest_safe (some (.revoked time (some revocationId)))
          (hlater.trans hafter) hrevoked rfl
      · intro own after time _ hafter _ reply hreply
        rcases reply with loss | won
        · cases loss with
          | unknown => exact unknown_safe
          | failed => exact ih (hlater.trans hafter)
        · cases won with
          | false => exact ih (hlater.trans hafter)
          | true => exact absurd rfl hreply

theorem settleRevocation_safe {slot : Option StoredSlot}
    {expect : Option JsString} {revocationId attempts : ℕ}
    (hissued : issuedSlot slot = true)
    (hexpect : ∀ revision, expect = some revision →
      digests.slotRevision agent slot = revision)
    (hbegun : Later begun world) :
    Safe (tokenDiscipline digests init) (Reporting (Revoked begun agent))
      (settleRevocation digests agent slot expect revocationId attempts) held
      world := by
  induction attempts generalizing held world with
  | zero => exact unknown_safe
  | succ attempts ih =>
      refine quiet_safe trivial fun opened hopening _ reply _ => ?_
      rcases reply with loss | isOpen
      · exact unknown_safe
      cases isOpen with
      | false => exact unknown_safe
      | true =>
      refine readSlot_safe fun now hreading _ reply hread => ?_
      have hlater := hbegun.trans (hopening.trans hreading)
      rcases reply with loss | current
      · cases loss with
        | unknown => exact unknown_safe
        | failed => exact ih hlater
      have hslot := hread current rfl
      cases hcarries : carriesRevocation current revocationId with
      | true =>
          simp only [hcarries, if_true]
          refine settleRest_safe _ hlater hslot ?_
          rcases current with _ | ⟨tokenId, issuedAt⟩ | ⟨revokedAt, carried⟩
          · cases hcarries
          · cases hcarries
          · rfl
      | false =>
      simp only [hcarries, Bool.false_eq_true, if_false]
      by_cases hsame : current = slot
      case neg =>
        simp only [ne_eq, hsame, not_false_eq_true, if_true]
        exact refuse_safe fun _ => secure_none
      subst hsame
      simp only [ne_eq, not_true_eq_false, if_false]
      refine revocation_safe (.revocation expect) hissued hslot
        (Later.refl now) hexpect (fun _ => rfl)
        (fun _ _ _ loss => lost_safe loss) ?_ ?_
      · intro own after time _ hafter _ hrevoked
        exact settleRest_safe (some (.revoked time (some revocationId)))
          (hlater.trans hafter) hrevoked rfl
      · intro own after time _ hafter _ reply hreply
        rcases reply with loss | won
        · cases loss with
          | unknown => exact unknown_safe
          | failed => exact ih (hlater.trans hafter)
        · cases won with
          | false => exact ih (hlater.trans hafter)
          | true => exact absurd rfl hreply

theorem matches_of_not {slot : Option StoredSlot} {expect : Option JsString}
    (hmatches : matchesExpected digests agent slot expect = true) :
    ∀ revision, expect = some revision →
      digests.slotRevision agent slot = revision := by
  rintro revision rfl
  exact of_decide_eq_true hmatches

theorem revoke_safe {agents : List Agent} {expect : Option JsString}
    (hbegun : Later begun world) :
    Safe (tokenDiscipline digests init) (Reporting (Revoked begun agent))
      (revoke digests agents agent expect) held world := by
  have hnone : ∀ (fault : TokenFault) (own : Set Name) (now : World),
      Safe (tokenDiscipline digests init) (Reporting (Revoked begun agent))
        (refuse none fault) own now :=
    fun _ _ _ => refuse_safe fun _ => secure_none
  refine ifAborted_safe (fun now _ _ => hnone _ _ now) fun started hstarted _ => ?_
  split
  · exact hnone _ _ started
  refine readSlot_safe fun now hreading _ reply hread => ?_
  have hlater := hbegun.trans (hstarted.trans hreading)
  rcases reply with loss | slot
  · exact undecided_safe secure_none
  have hslot := hread slot rfl
  cases hmatches : matchesExpected digests agent slot expect with
  | false =>
      simp only [hmatches, Bool.not_false, if_true]
      exact hnone _ _ now
  | true =>
  have hexpect := matches_of_not hmatches
  cases hissued : issuedSlot slot with
  | false =>
      simp only [hmatches, hissued, Bool.not_true, Bool.not_false,
        Bool.false_eq_true, if_true, if_false]
      exact settleRest_safe _ hlater hslot hissued
  | true =>
  simp only [hmatches, hissued, Bool.not_true, Bool.false_eq_true, if_false]
  refine ifAborted_safe (fun after _ _ => hnone _ _ after) fun ready hready _ => ?_
  refine draw_safe ?_ fun _ _ _ loss => lost_safe loss
  intro revocationId own drawn hdrawn _ _ _ _
  refine revocation_safe (.revocation expect) hissued hslot
    (hready.trans hdrawn) hexpect (fun _ => rfl)
    (fun _ _ _ loss => lost_safe loss) ?_ ?_
  · intro _ after time _ hafter _ hrevoked
    exact settleRest_safe (some (.revoked time (some revocationId)))
      (hlater.trans (hready.trans (hdrawn.trans hafter))) hrevoked rfl
  · intro _ after time _ hafter _ reply hreply
    have hcurrent := hlater.trans (hready.trans (hdrawn.trans hafter))
    rcases reply with loss | won
    · cases loss with
      | unknown => exact unknown_safe
      | failed =>
          cases expect with
          | none => exact revokeCurrent_safe hcurrent
          | some revision => exact settleRevocation_safe hissued hexpect hcurrent
    · cases won with
      | true => exact absurd rfl hreply
      | false =>
          cases expect with
          | none => exact revokeCurrent_safe hcurrent
          | some revision => exact hnone _ _ after

end Revoking

/-! ## Rotating -/

section Rotating

variable {Result : Type} {promise : Result → Set Name → World → Prop}

/-- A record and its lookup are written by whoever holds the id. -/
theorem writeRotation_safe {record : Record}
    {next : Except TokenFault Unit → TokenProgram Result}
    (hset : (record.id, Role.set) ∈ held) (hlate : init.drawn ≤ record.id)
    (hagent : record.agent ≠ none) (hdigest : record.tokenHash ∉ init.digests)
    (hnext : ∀ own now,
      (∀ name ∈ held, name ≠ (record.id, Role.set) → name ∈ own) →
      Later world now → (tokenDiscipline digests init).Held own now → ∀ reply,
        (reply = .ok () → Written now record) →
          Safe (tokenDiscipline digests init) promise (next reply) own now) :
    Safe (tokenDiscipline digests init) promise (writeRotation record >>= next)
      held world := by
  have hstays : ∀ fault now, Later world now →
      (tokenDiscipline digests init).Held held now →
        Safe (tokenDiscipline digests init) promise (next (.error fault)) held
          now :=
    fun fault now hnow hheld =>
      hnext held now (fun _ hname _ => hname) hnow hheld _ (by simp)
  refine quiet_safe trivial fun looked hlooking hlooked reply _ => ?_
  rcases reply with loss | _ | lookup
  · exact hstays _ looked hlooking hlooked
  case ok.some => exact hstays _ looked hlooking hlooked
  refine quiet_safe trivial fun asked hasking hasked reply _ => ?_
  have hbefore := hlooking.trans hasking
  rcases reply with loss | aborted
  · exact hstays _ asked hbefore hasked
  cases aborted with
  | true => exact hstays _ asked hbefore hasked
  | false =>
  refine setRecord_safe hset hlate hagent ?_ ?_
  · intro own written hwriting hheld hkept hwritten hrecord
    have hstored := written_of_records hwritten hrecord
    have hlater := hbefore.trans hwriting
    refine setLookup_safe hdigest fun indexed hindexing hindexed reply => ?_
    rcases reply with loss | _
    · exact hnext own indexed hkept (hlater.trans hindexing) hindexed _ (by simp)
    refine quiet_safe trivial fun ready hreadying hready reply _ => ?_
    have hrest := hindexing.trans hreadying
    rcases reply with loss | aborted
    · exact hnext own ready hkept (hlater.trans hrest) hready _ (by simp)
    cases aborted with
    | true => exact hnext own ready hkept (hlater.trans hrest) hready _ (by simp)
    | false =>
        exact hnext own ready hkept (hlater.trans hrest) hready _ fun _ =>
          hstored.later hrest
  · intro own lost hlosing hheld hkept loss
    exact hnext own lost hkept (hbefore.trans hlosing) hheld _ (by simp)

variable {success : Option ℕ → Reply → World → Prop}

/-- What a call discards it has not committed, and will not. -/
theorem discard_safe {record : Record} {next : TokenProgram Outcome}
    (hdrop : (record.id, Role.drop) ∈ held)
    (hcommit : (record.id, Role.commit) ∈ held) (hlate : init.drawn ≤ record.id)
    (hdigest : record.tokenHash ∉ init.digests)
    (hnext : ∀ own now, (record.id, Role.commit) ∈ own → Later world now →
      (tokenDiscipline digests init).Held own now →
        Safe (tokenDiscipline digests init) (Reporting success) next own now) :
    Safe (tokenDiscipline digests init) (Reporting success)
      (discard record next) held world := by
  refine moveLookup_safe (fun _ _ hknown => absurd hknown hdigest) ?_
  intro moved hmoving _ _
  refine dropRecord_safe hdrop hlate ?_
  intro own now hdropping hheld hkept _
  exact hnext own now (hkept _ hcommit (by simp)) (hmoving.trans hdropping) hheld

/-- A rotation that resolves has committed the record of its secret. -/
def Rotated (digests : Digests) (agent : Agent) (created : Option ℕ)
    (reply : Reply) (world : World) : Prop :=
  ∀ token view, reply = .issued token view → ∃ record,
    created = some record.id ∧ record.tokenHash = digests.hashToken token ∧
      Committed world agent record

variable {agent : Agent} {record : Record} {token : JsString}

theorem deliverRotation_safe (hinit : Initial init)
    (hcommitted : Committed world agent record)
    (howner : record.agent = some agent)
    (hsecret : record.tokenHash = digests.hashToken token) :
    Safe (tokenDiscipline digests init) (Reporting (Rotated digests agent))
      (deliverRotation digests agent token record) held world := by
  refine quiet_safe trivial fun asked hasking _ reply _ => ?_
  rcases reply with loss | aborted
  · exact lost_safe loss
  cases aborted with
  | false =>
      refine settle_safe fun now hnow _ => ?_
      intro issued view hissued
      cases hissued
      exact ⟨record, rfl, hsecret, hcommitted.later (hasking.trans hnow)⟩
  | true =>
      refine revokeIfNamed_safe fun own now _ hnow hheld reply hrevoked => ?_
      rcases reply with loss | _
      · exact lost_safe loss
      · refine refuse_safe fun _ => secure_gone ?_
        exact (hcommitted.later (hasking.trans hnow)).gone hinit hheld.valid
          howner (hrevoked rfl)

theorem commitRotation_safe (hinit : Initial init) {slot : Option StoredSlot}
    {expect : Option JsString} (hwritten : Written world record)
    (howner : record.agent = some agent)
    (hsecret : record.tokenHash = digests.hashToken token)
    (hdigest : record.tokenHash ∉ init.digests) (hlate : init.drawn ≤ record.id)
    (hdrop : (record.id, Role.drop) ∈ held)
    (hcommit : (record.id, Role.commit) ∈ held)
    (hexpect : ∀ revision, expect = some revision →
      digests.slotRevision agent slot = revision) :
    Safe (tokenDiscipline digests init) (Reporting (Rotated digests agent))
      (commitRotation digests agent slot expect token record) held world := by
  have hdelivers : ∀ (own : Set Name) (now : World), Later world now →
      (tokenDiscipline digests init).Held own now →
      tokenOf (now.slots agent) = some record.id →
        Safe (tokenDiscipline digests init) (Reporting (Rotated digests agent))
          (deliverRotation digests agent token record) own now :=
    fun own now hnow hheld hslot => deliverRotation_safe hinit
      ((hwritten.later hnow).committed hinit hheld.valid hslot) howner hsecret
  refine swapSlot_safe ?_ hexpect ?_ ?_ ?_ ?_
  · rintro ⟨id, role⟩ ⟨hid, hrole⟩
    cases hid
    cases role with
    | set => exact absurd rfl hrole
    | drop => exact hdrop
    | commit => exact hcommit
  · intro now hnow _ hfresh _
    obtain ⟨hunnamed, hundropped⟩ := hfresh record.id rfl
    have hstored := hwritten.later hnow
    exact .rotation record.id record.createdAt record.tokenHash expect rfl rfl
      (hstored.owned howner hundropped) hdigest hunnamed hstored.written
  · intro own now later _ hlater _ _ hwrite hheld _
    refine hdelivers own later hlater hheld ?_
    rw [hwrite]
    exact congrArg tokenOf (slots_write now _)
  · intro now _ _
    refine discard_safe hdrop hcommit hlate hdigest fun own _ hstays _ _ => ?_
    exact refuse_safe fun _ => secure_held hstays
  · intro own now hnow hheld _ loss
    cases loss with
    | unknown => exact unknown_safe
    | failed =>
        refine slotNames_safe hheld fun read hreading hread reply hnames => ?_
        rcases reply with loss | named
        · exact lost_safe loss
        · cases named with
          | false => exact lost_safe .failed
          | true =>
              exact hdelivers own read (hnow.trans hreading) hread (hnames rfl)

theorem publishRotation_safe (hinit : Initial init) {slot : Option StoredSlot}
    {expect : Option JsString} (howner : record.agent = some agent)
    (hsecret : record.tokenHash = digests.hashToken token)
    (hdigest : record.tokenHash ∉ init.digests) (hlate : init.drawn ≤ record.id)
    (hroles : ∀ role, (record.id, role) ∈ held)
    (hexpect : ∀ revision, expect = some revision →
      digests.slotRevision agent slot = revision) :
    Safe (tokenDiscipline digests init) (Reporting (Rotated digests agent))
      (publishRotation digests agent slot expect token record) held world := by
  refine writeRotation_safe (hroles .set) hlate ?_ hdigest ?_
  · rw [howner]
    simp
  intro own now hkept _ _ reply hwritten
  have hdrop := hkept _ (hroles .drop) (by simp)
  have hcommit := hkept _ (hroles .commit) (by simp)
  rcases reply with fault | _
  · refine discard_safe hdrop hcommit hlate hdigest fun own _ hstays _ _ => ?_
    exact undecided_safe (secure_held hstays)
  · exact commitRotation_safe hinit (hwritten rfl) howner hsecret hdigest hlate
      hdrop hcommit hexpect

theorem rotate_safe (hinit : Initial init) {agents : List Agent}
    {issuedBy : JsString} {expect : Option JsString} :
    Safe (tokenDiscipline digests init) (Reporting (Rotated digests agent))
      (rotate digests agents agent issuedBy expect) held world := by
  have hnone : ∀ (fault : TokenFault) (own : Set Name) (now : World),
      Safe (tokenDiscipline digests init) (Reporting (Rotated digests agent))
        (refuse none fault) own now :=
    fun _ _ _ => refuse_safe fun _ => secure_none
  refine ifAborted_safe (fun now _ _ => hnone _ _ now) fun started _ _ => ?_
  split
  · exact hnone _ _ started
  refine readSlot_safe fun read _ _ reply _ => ?_
  rcases reply with loss | slot
  · exact undecided_safe secure_none
  cases hmatches : matchesExpected digests agent slot expect with
  | false =>
      simp only [hmatches, Bool.not_false, if_true]
      exact hnone _ _ read
  | true =>
  simp only [hmatches, Bool.not_true, Bool.false_eq_true, if_false]
  refine mint_safe ?_ fun _ _ _ loss => lost_safe loss
  intro minted _ _ token hdigest
  refine draw_safe ?_ fun _ _ _ loss => lost_safe loss
  intro id own drawn _ _ _ hroles hlate
  refine quiet_safe trivial fun now _ _ reply _ => ?_
  rcases reply with loss | createdAt
  · exact lost_safe loss
  · exact publishRotation_safe hinit rfl rfl hdigest hlate hroles
      (matches_of_not hmatches)

end Rotating

end Connecta.AccessTokens
