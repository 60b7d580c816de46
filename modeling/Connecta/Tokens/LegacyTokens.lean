import Connecta.Tokens.TokenRuns

/-!
# Legacy tokens

A legacy token belongs to the agent whose claim stands, because its digest has
one lookup, the lookup names one legacy record, and that record has one claim.
It is carried by one record only: an adoption replaces an absent slot, and a slot
that was written is never absent again.
-/

namespace Connecta.AccessTokens

open Connecta.Programs
open Connecta.Runtime

variable {digests : Digests} {agents : List Agent} {init world : World}

/-! ## One carrier -/

/-- A slot names the record, or has named it. -/
def HasNamed (world : World) (agent : Agent) (id : ℕ) : Prop :=
  some id ∈ (world.values agent).map tokenOf

/-- The records that slots have named with the digest. -/
structure Sole (init : World) (digest : JsString) (world : World) : Prop where
  present : ∀ agent value, value ∈ world.values agent → value ≠ none →
    world.slots agent ≠ none
  claimed : ∀ agent id, HasNamed world agent id → Bears world id digest →
    ∃ legacyId, init.lookups digest = some (.readable legacyId) ∧
      world.claims legacyId = some (.readable agent)
  sole : ∀ id other, world.Named id → world.Named other →
    Bears world id digest → Bears world other digest → id = other

theorem Bears.earlier {after : World} {id : ℕ} {digest : JsString}
    (hbears : Bears after id digest) (hnamed : world.Named id)
    (hlater : Later world after) : Bears world id digest := by
  obtain ⟨record, hrecord, hdigest⟩ := hbears
  exact ⟨record, (hlater.named id hnamed).symm.trans hrecord, hdigest⟩

theorem sole_init (hinit : Initial init) {digest : JsString}
    (hfree : ¬BearsInitially init digest) : Sole init digest init where
  present := by
    intro agent value hvalue hpresent
    rw [values_init hinit, List.mem_singleton] at hvalue
    exact hvalue ▸ hpresent
  claimed := fun agent id hnamed hbears =>
    absurd ⟨id, ⟨agent, hnamed⟩, hbears⟩ hfree
  sole := fun id _ hnamed _ hbears _ => absurd ⟨id, hnamed, hbears⟩ hfree

section Step

variable {digest : JsString} (hsole : Sole init digest world)

include hsole

/-- A change that writes no slot. -/
theorem Sole.still {after : World} (hlater : Later world after)
    (hvalues : ∀ agent, after.values agent = world.values agent)
    (hslots : after.slots = world.slots) : Sole init digest after := by
  have hnamed : ∀ id, after.Named id → world.Named id := by
    rintro id ⟨agent, hid⟩
    exact ⟨agent, hvalues agent ▸ hid⟩
  constructor
  case present =>
    intro agent value hvalue hpresent
    rw [hslots]
    exact hsole.present agent value (hvalues agent ▸ hvalue) hpresent
  case claimed =>
    intro agent id hid hbears
    have hbefore : HasNamed world agent id := by
      rwa [HasNamed, hvalues] at hid
    obtain ⟨legacyId, hlookup, hclaim⟩ := hsole.claimed agent id hbefore
      (hbears.earlier ⟨agent, hbefore⟩ hlater)
    exact ⟨legacyId, hlookup, hlater.claims _ _ hclaim⟩
  case sole =>
    intro id other hid hother hbears hsame
    exact hsole.sole id other (hnamed id hid) (hnamed other hother)
      (hbears.earlier (hnamed id hid) hlater)
      (hsame.earlier (hnamed other hother) hlater)

end Step

/-- A commit that stores a record with the digest is an adoption, over an absent
slot, by the agent that claimed the legacy record. -/
theorem Stores.adopts {digest : JsString} (hknown : digest ∈ init.digests)
    (hfree : ¬BearsInitially init digest) {commit : SlotCommit} {id : ℕ}
    (hstores : Stores init world commit)
    (hid : commit.stored.tokenId? = some id) (hbears : Bears world id digest) :
    commit.replaced = none ∧ ∃ legacyId,
      init.lookups digest = some (.readable legacyId) ∧
        world.claims legacyId = some (.readable commit.agent) := by
  obtain ⟨record, hrecord, rfl⟩ := hbears
  cases hstores with
  | rotation named issuedAt minted expect _ hstored howned hminted _ _ =>
      rw [hstored] at hid
      cases hid
      obtain ⟨stored, hsame, -, -, rfl⟩ := howned
      rw [hrecord] at hsame
      cases hsame
      exact absurd hknown hminted
  | adoption named issuedAt legacyId carried expect _ hstored hreplaced howned
      hlegacy hclaim _ _ =>
      rw [hstored] at hid
      cases hid
      obtain ⟨stored, hsame, -, -, rfl⟩ := howned
      rw [hrecord] at hsame
      cases hsame
      obtain ⟨_, -, -, -, hlookup | hbearer⟩ := hlegacy
      · exact ⟨hreplaced, legacyId, hlookup, hclaim⟩
      · exact absurd hbearer hfree
  | revocation time revocationId hstored _ _ =>
      rw [hstored] at hid
      cases hid

section Step

variable {digest : JsString} (hsole : Sole init digest world)
variable (hknown : digest ∈ init.digests) (hfree : ¬BearsInitially init digest)

include hsole hknown hfree

/-- No slot has named the digest before an adoption commits. -/
theorem Sole.unnamed {commit : SlotCommit} {id other : ℕ}
    (hstores : Stores init world commit)
    (hreplaced : world.slots commit.agent = commit.replaced.map .readable)
    (hid : commit.stored.tokenId? = some id) (hbears : Bears world id digest)
    (hother : world.Named other) : ¬Bears world other digest := by
  intro hsame
  obtain ⟨hnone, legacyId, hlookup, hclaim⟩ :=
    hstores.adopts hknown hfree hid hbears
  obtain ⟨agent, hnamed⟩ := hother
  obtain ⟨claimedId, hfound, hclaimed⟩ := hsole.claimed agent other hnamed hsame
  rw [hlookup] at hfound
  cases hfound
  rw [hclaim] at hclaimed
  cases hclaimed
  obtain ⟨value, hvalue, htoken⟩ := List.mem_map.mp hnamed
  refine hsole.present commit.agent value hvalue ?_ ?_
  · rintro rfl
    cases htoken
  · rw [hreplaced, hnone]
    rfl

theorem Sole.write {commit : SlotCommit}
    (hreplaced : world.slots commit.agent = commit.replaced.map .readable)
    (hstores : Stores init world commit) :
    Sole init digest (world.write commit) where
  present := by
    intro agent value hvalue hpresent
    by_cases hagent : agent = commit.agent
    · subst hagent
      rw [slots_write]
      simp
    · rw [slots_write_of_ne world commit hagent]
      rw [values_write_of_ne world commit hagent] at hvalue
      exact hsole.present agent value hvalue hpresent
  claimed := by
    intro agent id hid hbears
    obtain ⟨value, hvalue, htoken⟩ := List.mem_map.mp hid
    rcases (mem_values_write hreplaced).mp hvalue with hold | ⟨rfl, rfl⟩
    · exact hsole.claimed agent id (List.mem_map.mpr ⟨value, hold, htoken⟩) hbears
    · exact (hstores.adopts hknown hfree htoken hbears).2
  sole := by
    intro id other hid hother hbears hsame
    rcases (named_write hreplaced).mp hid with hfirst | hfirst <;>
      rcases (named_write hreplaced).mp hother with hsecond | hsecond
    · exact hsole.sole id other hfirst hsecond hbears hsame
    · exact absurd hbears
        (hsole.unnamed hknown hfree hstores hreplaced hsecond hsame hfirst)
    · exact absurd hsame
        (hsole.unnamed hknown hfree hstores hreplaced hfirst hbears hsecond)
    · exact Option.some.inj (hfirst.symm.trans hsecond)

/-- The step lemma. -/
theorem Sole.step {after : World} (hchanges : Changes digests init world after) :
    Sole init digest after := by
  have hlater := hchanges.later
  cases hchanges with
  | still | draw | mint | stamp | setRecord | dropRecord | setClaim | setLookup =>
      exact hsole.still hlater (fun _ => rfl) rfl
  | write commit hreplaced hstores _ =>
      exact hsole.write hknown hfree hreplaced hstores

end Step

/-- One agent's slots have named a record with the digest. -/
theorem Sole.owner {digest : JsString} (hsole : Sole init digest world)
    {first second : Agent} {id : ℕ} (hfirst : HasNamed world first id)
    (hsecond : HasNamed world second id) (hbears : Bears world id digest) :
    first = second := by
  obtain ⟨legacyId, hlookup, hclaim⟩ := hsole.claimed first id hfirst hbears
  obtain ⟨otherId, hfound, hother⟩ := hsole.claimed second id hsecond hbears
  rw [hlookup] at hfound
  cases hfound
  rw [hclaim] at hother
  cases hother
  rfl

/-! ## Moved on -/

/-- A slot named a record with the digest, and no longer does. -/
def MovedOn (world : World) (digest : JsString) : Prop :=
  ∃ agent id, some id ∈ (world.past agent).map tokenOf ∧ Bears world id digest

/-- Once a slot has moved on, no slot names the digest again. -/
theorem Sole.not_namedSince {digest : JsString} (hsole : Sole init digest world)
    (hvalid : Valid init world) {begun : World} (hlater : Later begun world)
    (hmoved : MovedOn begun digest) {agent : Agent} {id : ℕ}
    (hbears : Bears world id digest) : ¬NamedSince begun world agent id := by
  intro hnamed
  obtain ⟨owner, old, hpast, hcarried⟩ := hmoved
  have hvalues : begun.Named old :=
    ⟨owner, List.map_subset tokenOf (List.subset_append_left _ _) hpast⟩
  obtain rfl := hsole.sole id old hnamed.named (hlater.names hvalues) hbears
    (hcarried.later hvalues hlater)
  have howner : HasNamed world owner id := by
    rw [HasNamed, ← values_since hlater owner, List.map_append]
    exact List.mem_append_left _ hpast
  have hagent : HasNamed world agent id :=
    List.map_subset tokenOf (List.drop_subset _ _) hnamed
  obtain rfl := hsole.owner howner hagent hbears
  exact not_namedSince_of_past hvalid hlater hpast hnamed

/-- A legacy token is one agent's, and gone once that agent's slot moves on. -/
structure Exclusive (legacyId : ℕ) (digest : JsString)
    (system : System (tokenService digests agents init)) : Prop where
  one : ∀ first second id other,
    HasNamed system.world first id → Bears system.world id digest →
    HasNamed system.world second other → Bears system.world other digest →
      first = second
  adopted : ∀ process agent expect begun outcome reply,
    system.running process = some
      (TokenCall.adopt (some legacyId) agent expect begun,
        .done (TokenResult.mutation outcome)) →
    MovedOn begun digest → outcome.result ≠ .ok reply
  admitted : ∀ process token begun admission,
    system.running process = some (TokenCall.authorize token begun,
      .done (TokenResult.admission admission)) →
    digests.hashToken token = digest → MovedOn begun digest → admission = none

/-- A legacy record that nobody has claimed belongs to one agent in every
interleaving, and cannot come back. -/
theorem legacy_token_exclusive
    {system : System (tokenService digests agents init)} (hinit : Initial init)
    (hreachable : Reachable (tokenDiscipline digests init) init system)
    {legacyId : ℕ} {legacy : Record}
    (hlegacy : init.records legacyId = some (.readable legacy))
    (hagent : legacy.agent = none) (hunclaimed : init.claims legacyId = none) :
    Exclusive legacyId legacy.tokenHash system := by
  have hfree : ¬BearsInitially init legacy.tokenHash := fun hbearer =>
    hinit.claimed legacyId legacy hlegacy hagent hbearer hunclaimed
  have hknown := hinit.digests legacyId legacy hlegacy
  have hvalid := reachable_tokens_valid hinit hreachable
  have hsole : Sole init legacy.tokenHash system.world :=
    reachable_invariant (token_disciplined hinit) (valid_init hinit)
      (sole_init hinit hfree)
      (fun _ _ hsole _ hchanges => hsole.step hknown hfree hchanges) hreachable
  constructor
  case one =>
    intro first second id other hfirst hbears hsecond hsame
    obtain rfl := hsole.sole id other ⟨first, hfirst⟩ ⟨second, hsecond⟩ hbears hsame
    exact hsole.owner hfirst hsecond hbears
  case adopted =>
    intro process agent expect begun outcome reply hended hmoved hresult
    have hpromise : Later begun system.world ∧
        Reporting (Adopted init begun agent legacyId) outcome ∅ system.world :=
      reachable_promise (token_disciplined hinit) (valid_init hinit) hreachable
        hended
    obtain ⟨hlater, hreports, -⟩ := hpromise
    obtain ⟨found, id, hfound, hnamed, hbears⟩ := hreports reply hresult
    rw [hlegacy] at hfound
    cases hfound
    exact hsole.not_namedSince hvalid hlater hmoved hbears hnamed
  case admitted =>
    intro process token begun admission hended hdigest hmoved
    obtain ⟨hlater, hadmitted⟩ := authorize_promise hinit hreachable hended
    cases admission with
    | none => rfl
    | some agent =>
        obtain ⟨id, hnamed, record, hrecord, -, -, hsame⟩ := hadmitted agent rfl
        exact absurd hnamed (hsole.not_namedSince hvalid hlater hmoved
          ⟨record, hrecord, hsame.trans hdigest⟩)

/-! ## A run -/

/-- The store once the agent adopted the legacy token. -/
def adoptedWorld : World :=
  let record := adoptionRecord ciAgent legacyRecord 1 0
  let claimed := legacyWorld.setClaim 0 ciAgent
  (({ claimed with drawn := 2 }.setRecord record).write {
    agent := ciAgent
    replaced := none
    stored := .issued 1 0
    purpose := .adoption 0 none }).setLookup (secretOf 0x41) (some 1)

theorem adopt_served : Served ciDiscipline
    (ciService.program (TokenCall.adopt (some 0) ciAgent none legacyWorld))
    legacyWorld
    (.mutation {
      created := some 1
      result := .ok (.slot
        (slotView plainDigests ciAgent (some (.issued 1 0)))) })
    adoptedWorld := by
  refine .ask false rfl ?_
  refine .ask (some (.readable legacyRecord)) ⟨rfl, rfl⟩ ?_
  refine .ask none ⟨rfl, rfl⟩ ?_
  refine .ask none ⟨rfl, rfl⟩ ?_
  refine .ask (some (.readable 0)) ⟨rfl, rfl⟩ ?_
  refine .ask none ⟨rfl, rfl⟩ ?_
  refine .ask false rfl ?_
  refine .ask true ⟨rfl, rfl⟩ ?_
  refine .ask 1 ⟨rfl, rfl⟩ ?_
  refine .ask 0 rfl ?_
  refine .ask () rfl ?_
  refine .ask false rfl ?_
  refine .ask true (swapSlot_served ?_) ?_
  · rfl
  refine .ask true rfl ?_
  refine .ask (some (.readable 0)) ⟨rfl, rfl⟩ ?_
  refine .ask true ⟨rfl, rfl⟩ ?_
  refine .ask true rfl ?_
  exact .done _ _

/-- The legacy token was adopted, and then replaced by a rotation. -/
theorem legacy_token_exclusive_adopted : ∃ system : System ciService,
    MovedOn system.world (secretOf 0x41) ∧
      Exclusive 0 (secretOf 0x41) system := by
  have hinit : Reachable ciDiscipline legacyWorld
      ({ world := legacyWorld, running := fun _ => none, waiting := fun _ => none } :
        System ciService) := .refl
  have hadopted := hinit.starts 0 (TokenCall.adopt (some 0) ciAgent none legacyWorld)
    rfl rfl adopt_served.advances
  have hserved : Served ciDiscipline
      (ciService.program (TokenCall.rotate ciAgent [] none)) adoptedWorld _ _ :=
    rotate_served (some (.issued 1 0)) (secretOf 0x42)
      (List.mem_singleton_self ciAgent) rfl (by decide) (by decide) (by decide)
  have hrotated := hadopted.starts 1 (TokenCall.rotate ciAgent [] none) rfl trivial
    hserved.advances
  have hlegacy : legacyWorld.records 0 = some (.readable legacyRecord) := rfl
  refine ⟨_, ⟨ciAgent, 1, ?_, adoptionRecord ciAgent legacyRecord 1 0, rfl, rfl⟩,
    legacy_token_exclusive legacyWorld_initial hrotated hlegacy rfl rfl⟩
  decide

end Connecta.AccessTokens
