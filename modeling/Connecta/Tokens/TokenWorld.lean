import Connecta.Tokens.AccessTokens

/-!
# The store of the access tokens

Every key is read and written by itself.  A record belongs to whoever drew its
id: it is written once, and dropped only while no slot has named it.  A slot that
was written is never absent again, and never names a record for a second time.
-/

namespace Connecta.AccessTokens

open Connecta.Programs
open Connecta.Runtime

/-! ## The world -/

structure SlotCommit where
  agent : Agent
  replaced : Option StoredSlot
  stored : StoredSlot
  purpose : Purpose

structure World where
  slots : Agent → Option (Stored StoredSlot)
  records : ℕ → Option (Stored Record)
  lookups : JsString → Option (Stored ℕ)
  claims : ℕ → Option (Stored Agent)
  /-- Every id below has been drawn. -/
  drawn : ℕ
  /-- The digests of the secrets drawn or stored. -/
  digests : List JsString
  /-- The ids whose record was set, and those whose record was dropped. -/
  written : List ℕ
  dropped : List ℕ
  log : List SlotCommit
  /-- A revocation was built as one its slot had already stored. -/
  clashed : Bool

/-- The values a slot has been replaced from. -/
def World.past (world : World) (agent : Agent) :
    List (Option (Stored StoredSlot)) :=
  (world.log.filter fun commit => commit.agent = agent).map fun commit =>
    commit.replaced.map .readable

/-- The values of a slot, the current one last. -/
def World.values (world : World) (agent : Agent) :
    List (Option (Stored StoredSlot)) :=
  world.past agent ++ [world.slots agent]

/-- The record a stored slot names. -/
def tokenOf : Option (Stored StoredSlot) → Option ℕ
  | some (.readable slot) => slot.tokenId?
  | some (.unreadable _) | none => none

/-- A record some slot names or has named. -/
def World.Named (world : World) (id : ℕ) : Prop :=
  ∃ agent, some id ∈ (world.values agent).map tokenOf

def World.write (world : World) (commit : SlotCommit) : World :=
  { world with
    slots := Function.update world.slots commit.agent
      (some (.readable commit.stored))
    log := world.log ++ [commit] }

def World.setRecord (world : World) (record : Record) : World :=
  { world with
    records := Function.update world.records record.id (some (.readable record))
    written := record.id :: world.written }

def World.dropRecord (world : World) (id : ℕ) : World :=
  { world with
    records := Function.update world.records id none
    dropped := id :: world.dropped }

def World.setLookup (world : World) (digest : JsString) (id : Option ℕ) : World :=
  { world with
    lookups := Function.update world.lookups digest (id.map .readable) }

def World.setClaim (world : World) (legacyId : ℕ) (agent : Agent) : World :=
  { world with
    claims := Function.update world.claims legacyId (some (.readable agent)) }

/-- A revocation is built, as one that its slot may have stored. -/
def World.stamp (world : World) (agent : Agent) (time revocationId : ℕ) : World :=
  { world with
    clashed := world.clashed || decide
      (some (.readable (.revoked time (some revocationId))) ∈ world.values agent) }

/-- The store serves one operation at a time.  A drawn secret has a digest that
no other secret has. -/
def serveToken (digests : Digests) :
    (op : TokenOp) → World → TokenAnswer op → World → Prop
  | .getSlot agent, world, slot, later =>
      slot = world.slots agent ∧ later = world
  | .getRecord id, world, record, later =>
      record = world.records id ∧ later = world
  | .getLookup digest, world, lookup, later =>
      lookup = world.lookups digest ∧ later = world
  | .getClaim legacyId, world, claim, later =>
      claim = world.claims legacyId ∧ later = world
  | .setRecord record, world, _, later => later = world.setRecord record
  | .setLookup digest id, world, _, later =>
      later = world.setLookup digest (some id)
  | .swapSlot agent expected next purpose, world, answer, later =>
      if world.slots agent = expected.map .readable then
        answer = true ∧ later = world.write {
          agent := agent
          replaced := expected
          stored := next
          purpose := purpose }
      else answer = false ∧ later = world
  | .moveLookup digest expected next, world, answer, later =>
      if world.lookups digest = some (.readable expected) then
        answer = true ∧ later = world.setLookup digest next
      else answer = false ∧ later = world
  | .dropRecord record, world, answer, later =>
      if world.records record.id = some (.readable record) then
        answer = true ∧ later = world.dropRecord record.id
      else answer = false ∧ later = world
  | .setClaim legacyId agent, world, answer, later =>
      if world.claims legacyId = none then
        answer = true ∧ later = world.setClaim legacyId agent
      else answer = false ∧ later = world
  | .randomUUID, world, id, later =>
      id = world.drawn ∧ later = { world with drawn := world.drawn + 1 }
  | .randomToken, world, token, later =>
      tokenShape token = true ∧ digests.hashToken token ∉ world.digests ∧
        later = { world with
          digests := digests.hashToken token :: world.digests }
  | .aborted, world, _, later | .windowOpen, world, _, later
  | .now, world, _, later => later = world
  | .revokedAt agent revocationId, world, time, later =>
      later = world.stamp agent time revocationId

/-- A stored record carries the digest. -/
def Bears (world : World) (id : ℕ) (digest : JsString) : Prop :=
  ∃ record, world.records id = some (.readable record) ∧
    record.tokenHash = digest

/-- Some slot of the initial store names a record with the digest. -/
def BearsInitially (init : World) (digest : JsString) : Prop :=
  ∃ id, init.Named id ∧ Bears init id digest

/-- A store before any call: every id in it counts as drawn, and the digests of
its records are known. -/
structure Initial (init : World) : Prop where
  named : ∀ id, init.Named id → id < init.drawn
  records : ∀ id stored, init.records id = some stored → id < init.drawn
  digests : ∀ id record, init.records id = some (.readable record) →
    record.tokenHash ∈ init.digests
  /-- A slot names records of its own agent. -/
  owned : ∀ agent id record, tokenOf (init.slots agent) = some id →
    init.records id = some (.readable record) → record.agent = some agent
  /-- An adoption that committed had claimed its legacy record. -/
  claimed : ∀ legacyId legacy, init.records legacyId = some (.readable legacy) →
    legacy.agent = none → BearsInitially init legacy.tokenHash →
      init.claims legacyId ≠ none
  written : init.written = []
  dropped : init.dropped = []
  log : init.log = []
  clashed : init.clashed = false

/-! ## Lawful changes -/

/-- A record that is stored and belongs to an agent. -/
def Owned (world : World) (agent : Agent) (digest : JsString) (id : ℕ) : Prop :=
  ∃ record, world.records id = some (.readable record) ∧ record.id = id ∧
    record.agent = some agent ∧ record.tokenHash = digest

/-- A legacy record that the lookup of its digest named from the beginning. -/
def Legacy (init : World) (legacyId : ℕ) (digest : JsString) : Prop :=
  ∃ legacy, init.records legacyId = some (.readable legacy) ∧
    legacy.agent = none ∧ legacy.tokenHash = digest ∧
    (init.lookups digest = some (.readable legacyId) ∨
      BearsInitially init digest)

/-- What a commit stores. -/
inductive Stores (init before : World) (commit : SlotCommit) : Prop where
  | rotation (id issuedAt : ℕ) (digest : JsString) (expect : Option JsString) :
      commit.purpose = .rotation expect → commit.stored = .issued id issuedAt →
      Owned before commit.agent digest id → digest ∉ init.digests →
      ¬before.Named id → id ∈ before.written → Stores init before commit
  | adoption (id issuedAt legacyId : ℕ) (digest : JsString)
      (expect : Option JsString) :
      commit.purpose = .adoption legacyId expect →
      commit.stored = .issued id issuedAt →
      commit.replaced = none →
      Owned before commit.agent digest id → Legacy init legacyId digest →
      before.claims legacyId = some (.readable commit.agent) →
      ¬before.Named id → id ∈ before.written → Stores init before commit
  | revocation (time : ℕ) (revocationId : Option ℕ) :
      commit.stored = .revoked time revocationId →
      issuedSlot commit.replaced = true →
      (before.clashed = true ∨
        some (.readable commit.stored) ∉ before.values commit.agent) →
      Stores init before commit

namespace Purpose

/-- The revision a commit was made conditional on. -/
def expect : Purpose → Option JsString
  | .rotation expect | .adoption _ expect | .revocation expect => expect
  | .compensation => none

end Purpose

/-- A commit replaces exactly the slot its caller named. -/
def Expected (digests : Digests) (commit : SlotCommit) : Prop :=
  ∀ revision, commit.purpose.expect = some revision →
    digests.slotRevision commit.agent commit.replaced = revision

inductive Changes (digests : Digests) (init before : World) : World → Prop where
  | still : Changes digests init before before
  | draw : Changes digests init before { before with drawn := before.drawn + 1 }
  | mint (digest : JsString) :
      Changes digests init before
        { before with digests := digest :: before.digests }
  | stamp (clashed : Bool) : (before.clashed = true → clashed = true) →
      Changes digests init before { before with clashed := clashed }
  | setRecord (record : Record) :
      record.id ∉ before.written → ¬before.Named record.id →
      record.id < before.drawn → init.drawn ≤ record.id →
      record.agent ≠ none →
      Changes digests init before (before.setRecord record)
  | dropRecord (id : ℕ) : ¬before.Named id → id < before.drawn →
      init.drawn ≤ id → Changes digests init before (before.dropRecord id)
  | setClaim (legacyId : ℕ) (agent : Agent) : before.claims legacyId = none →
      Changes digests init before (before.setClaim legacyId agent)
  | setLookup (digest : JsString) (id : Option ℕ) :
      (digest ∈ init.digests →
        ∃ named, id = some named ∧ before.Named named ∧
          Bears before named digest) →
      Changes digests init before (before.setLookup digest id)
  | write (commit : SlotCommit) :
      before.slots commit.agent = commit.replaced.map .readable →
      Stores init before commit → Expected digests commit →
      Changes digests init before (before.write commit)

/-! ## The values of a slot -/

section Values

variable {world : World} {commit : SlotCommit}

theorem slots_mem_values (world : World) (agent : Agent) :
    world.slots agent ∈ world.values agent :=
  List.mem_append_right _ (List.mem_singleton_self _)

theorem slots_write (world : World) (commit : SlotCommit) :
    (world.write commit).slots commit.agent = some (.readable commit.stored) :=
  Function.update_self _ _ _

theorem slots_write_of_ne (world : World) (commit : SlotCommit) {agent : Agent}
    (hagent : agent ≠ commit.agent) :
    (world.write commit).slots agent = world.slots agent :=
  Function.update_of_ne hagent _ _

theorem values_write
    (hreplaced : world.slots commit.agent = commit.replaced.map .readable) :
    (world.write commit).values commit.agent =
      world.values commit.agent ++ [some (.readable commit.stored)] := by
  have hpast : (world.write commit).past commit.agent =
      world.past commit.agent ++ [world.slots commit.agent] := by
    rw [World.past, World.write, List.filter_append, List.map_append, hreplaced]
    simp [World.past]
  rw [World.values, World.values, hpast, slots_write]

theorem values_write_of_ne (world : World) (commit : SlotCommit) {agent : Agent}
    (hagent : agent ≠ commit.agent) :
    (world.write commit).values agent = world.values agent := by
  have hpast : (world.write commit).past agent = world.past agent := by
    rw [World.past, World.write, List.filter_append]
    simp [World.past, hagent.symm]
  rw [World.values, World.values, hpast, slots_write_of_ne world commit hagent]

/-- A write adds one value to one slot. -/
theorem mem_values_write
    (hreplaced : world.slots commit.agent = commit.replaced.map .readable)
    {agent : Agent} {value : Option (Stored StoredSlot)} :
    value ∈ (world.write commit).values agent ↔
      value ∈ world.values agent ∨
        agent = commit.agent ∧ value = some (.readable commit.stored) := by
  by_cases hagent : agent = commit.agent
  · subst hagent
    rw [values_write hreplaced, List.mem_append, List.mem_singleton]
    simp
  · rw [values_write_of_ne world commit hagent]
    simp [hagent]

theorem named_write
    (hreplaced : world.slots commit.agent = commit.replaced.map .readable)
    {id : ℕ} : (world.write commit).Named id ↔
      world.Named id ∨ commit.stored.tokenId? = some id := by
  constructor
  · rintro ⟨agent, hid⟩
    obtain ⟨value, hvalue, htoken⟩ := List.mem_map.mp hid
    rcases (mem_values_write hreplaced).mp hvalue with hold | ⟨-, rfl⟩
    · exact .inl ⟨agent, List.mem_map.mpr ⟨value, hold, htoken⟩⟩
    · exact .inr htoken
  · rintro (⟨agent, hid⟩ | htoken)
    · obtain ⟨value, hvalue, hnames⟩ := List.mem_map.mp hid
      exact ⟨agent, List.mem_map.mpr
        ⟨value, (mem_values_write hreplaced).mpr (.inl hvalue), hnames⟩⟩
    · exact ⟨commit.agent, List.mem_map.mpr
        ⟨_, (mem_values_write hreplaced).mpr (.inr ⟨rfl, rfl⟩), htoken⟩⟩

theorem named_of_slot {agent : Agent} {id : ℕ}
    (hid : tokenOf (world.slots agent) = some id) : world.Named id :=
  ⟨agent, List.mem_map.mpr ⟨_, slots_mem_values world agent, hid⟩⟩

end Values

/-! ## What lasts -/

/-- What every lawful change keeps. -/
structure Later (before after : World) : Prop where
  log : before.log <+: after.log
  values : ∀ agent, before.values agent <+: after.values agent
  written : ∀ id ∈ before.written, id ∈ after.written
  drawn : before.drawn ≤ after.drawn
  claims : ∀ legacyId claim, before.claims legacyId = some claim →
    after.claims legacyId = some claim
  clashed : before.clashed = true → after.clashed = true
  /-- A record once written is the same, or dropped. -/
  records : ∀ id ∈ before.written, ∀ record, after.records id = some record →
    before.records id = some record
  dropped : ∀ id ∈ before.dropped, id ∈ after.dropped
  stays : ∀ id ∈ before.written, id ∉ after.dropped →
    after.records id = before.records id
  /-- A record some slot named is the same. -/
  named : ∀ id, before.Named id → after.records id = before.records id
  /-- A record that was named is named again by no slot. -/
  kept : ∀ agent id, before.Named id → tokenOf (after.slots agent) = some id →
    tokenOf (before.slots agent) = some id

theorem Later.refl (world : World) : Later world world where
  log := List.prefix_rfl
  values := fun _ => List.prefix_rfl
  written := fun _ hid => hid
  drawn := le_rfl
  claims := fun _ _ hclaim => hclaim
  clashed := id
  records := fun _ _ _ hrecord => hrecord
  dropped := fun _ hid => hid
  stays := fun _ _ _ => rfl
  named := fun _ _ => rfl
  kept := fun _ _ _ hnames => hnames

theorem Later.names {before after : World} (hlater : Later before after) {id : ℕ}
    (hnamed : before.Named id) : after.Named id := by
  obtain ⟨agent, hid⟩ := hnamed
  exact ⟨agent, ((hlater.values agent).map tokenOf).subset hid⟩

theorem Later.trans {first second third : World} (hfirst : Later first second)
    (hsecond : Later second third) : Later first third where
  log := hfirst.log.trans hsecond.log
  values := fun agent => (hfirst.values agent).trans (hsecond.values agent)
  written := fun id hid => hsecond.written id (hfirst.written id hid)
  drawn := hfirst.drawn.trans hsecond.drawn
  claims := fun legacyId claim hclaim =>
    hsecond.claims legacyId claim (hfirst.claims legacyId claim hclaim)
  clashed := fun hclashed => hsecond.clashed (hfirst.clashed hclashed)
  records := fun id hid record hrecord => hfirst.records id hid record
    (hsecond.records id (hfirst.written id hid) record hrecord)
  dropped := fun id hid => hsecond.dropped id (hfirst.dropped id hid)
  stays := by
    intro id hid hundropped
    rw [hsecond.stays id (hfirst.written id hid) hundropped]
    exact hfirst.stays id hid fun hdropped =>
      hundropped (hsecond.dropped id hdropped)
  named := fun id hnamed =>
    (hsecond.named id (hfirst.names hnamed)).trans (hfirst.named id hnamed)
  kept := fun agent id hnamed hnames => hfirst.kept agent id hnamed
    (hsecond.kept agent id (hfirst.names hnamed) hnames)

theorem Stores.unnamed {init before : World} {commit : SlotCommit} {id : ℕ}
    (hstores : Stores init before commit)
    (hid : commit.stored.tokenId? = some id) :
    ¬before.Named id ∧ id ∈ before.written := by
  cases hstores with
  | rotation named issuedAt digest expect _ hstored _ _ hunnamed hwritten =>
      rw [hstored] at hid
      cases hid
      exact ⟨hunnamed, hwritten⟩
  | adoption named issuedAt legacyId digest expect _ hstored _ _ _ _ hunnamed
      hwritten =>
      rw [hstored] at hid
      cases hid
      exact ⟨hunnamed, hwritten⟩
  | revocation time revocationId hstored _ _ =>
      rw [hstored] at hid
      cases hid

theorem Changes.later {digests : Digests} {init before after : World}
    (hchanges : Changes digests init before after) : Later before after := by
  cases hchanges with
  | still => exact Later.refl before
  | draw => exact { Later.refl before with drawn := Nat.le_succ _ }
  | mint digest => exact { Later.refl before with }
  | stamp clashed hclashed => exact { Later.refl before with clashed := hclashed }
  | setRecord record hunwritten hunnamed _ _ _ =>
      exact { Later.refl before with
        written := fun id hid => List.mem_cons_of_mem _ hid
        records := by
          intro id hid stored hstored
          rcases update_eq hstored with ⟨rfl, -⟩ | ⟨-, hbefore⟩
          · exact absurd hid hunwritten
          · exact hbefore
        stays := by
          intro id hid _
          refine Function.update_of_ne ?_ _ _
          rintro rfl
          exact hunwritten hid
        named := by
          intro id hnamed
          refine Function.update_of_ne ?_ _ _
          rintro rfl
          exact hunnamed hnamed }
  | dropRecord dropped hunnamed _ _ =>
      exact { Later.refl before with
        records := by
          intro id hid stored hstored
          rcases update_eq hstored with ⟨-, hnone⟩ | ⟨-, hbefore⟩
          · cases hnone
          · exact hbefore
        dropped := fun id hid => List.mem_cons_of_mem _ hid
        stays := by
          intro id _ hundropped
          refine Function.update_of_ne ?_ _ _
          rintro rfl
          exact hundropped List.mem_cons_self
        named := by
          intro id hnamed
          refine Function.update_of_ne ?_ _ _
          rintro rfl
          exact hunnamed hnamed }
  | setClaim legacyId agent habsent =>
      exact { Later.refl before with
        claims := by
          intro other claim hclaim
          refine (Function.update_of_ne ?_ _ _).trans hclaim
          rintro rfl
          cases habsent.symm.trans hclaim }
  | setLookup digest id _ => exact { Later.refl before with }
  | write commit hreplaced hstores _ =>
      exact { Later.refl before with
        log := List.prefix_append _ _
        values := by
          intro agent
          by_cases hagent : agent = commit.agent
          · subst hagent
            rw [values_write hreplaced]
            exact List.prefix_append _ _
          · rw [values_write_of_ne before commit hagent]
        kept := by
          intro agent id hnamed hnames
          by_cases hagent : agent = commit.agent
          · subst hagent
            rw [slots_write] at hnames
            exact absurd hnamed (hstores.unnamed hnames).1
          · rwa [slots_write_of_ne before commit hagent] at hnames }

/-! ## Valid worlds -/

/-- What holds of every world reached from an initial one. -/
structure Valid (init world : World) : Prop where
  drawn : init.drawn ≤ world.drawn
  fresh : ∀ id, world.Named id ∨ id ∈ world.written ∨ id ∈ world.dropped →
    id < world.drawn
  written : ∀ id ∈ world.written, init.drawn ≤ id
  initial : ∀ id, id < init.drawn → world.records id = init.records id
  agents : ∀ id record, world.records id = some (.readable record) →
    init.drawn ≤ id → record.agent ≠ none
  placed : ∀ id stored, world.records id = some stored →
    id < init.drawn ∨ id ∈ world.written
  digests : ∀ digest ∈ init.digests, digest ∈ world.digests
  lookups : ∀ digest ∈ init.digests, world.lookups digest = init.lookups digest ∨
    ∃ id, world.lookups digest = some (.readable id) ∧ world.Named id ∧
      Bears world id digest
  once : ∀ agent, ((world.values agent).filterMap tokenOf).Nodup
  origin : ∀ agent value, value ∈ world.values agent →
    value = init.slots agent ∨ ∃ commit ∈ world.log,
      commit.agent = agent ∧ value = some (.readable commit.stored)
  stored : ∀ commit ∈ world.log,
    some (.readable commit.stored) ∈ world.values commit.agent
  commits : ∀ commit ∈ world.log, ∀ id, commit.stored.tokenId? = some id →
    id ∈ world.written ∧ ∃ digest, Owned world commit.agent digest id

theorem values_init {init : World} (hinit : Initial init) (agent : Agent) :
    init.values agent = [init.slots agent] := by
  rw [World.values, World.past, hinit.log]
  rfl

theorem valid_init {init : World} (hinit : Initial init) : Valid init init where
  drawn := le_rfl
  fresh := by
    rintro id (hnamed | hwritten | hdropped)
    · exact hinit.named id hnamed
    · rw [hinit.written] at hwritten
      cases hwritten
    · rw [hinit.dropped] at hdropped
      cases hdropped
  written := by
    rw [hinit.written]
    exact nofun
  initial := fun _ _ => rfl
  agents := fun id record hrecord hlate =>
    absurd (hinit.records id _ hrecord) (not_lt.mpr hlate)
  placed := fun id stored hstored => .inl (hinit.records id stored hstored)
  digests := fun _ hdigest => hdigest
  lookups := fun _ _ => .inl rfl
  once := by
    intro agent
    rw [values_init hinit, List.filterMap_cons, List.filterMap_nil]
    split
    · exact List.nodup_nil
    · exact List.nodup_singleton _
  origin := by
    intro agent value hvalue
    rw [values_init hinit] at hvalue
    exact .inl (List.mem_singleton.mp hvalue)
  stored := by
    rw [hinit.log]
    exact nofun
  commits := by
    rw [hinit.log]
    exact nofun

section Step

variable {init before : World} (hvalid : Valid init before)

include hvalid

theorem Valid.setRecord {record : Record} (hunwritten : record.id ∉ before.written)
    (hunnamed : ¬before.Named record.id) (hdrawn : record.id < before.drawn)
    (hlate : init.drawn ≤ record.id) (hagent : record.agent ≠ none) :
    Valid init (before.setRecord record) := by
  have hsame : ∀ id, id ≠ record.id →
      (before.setRecord record).records id = before.records id :=
    fun id hid => Function.update_of_ne hid _ _
  have hnamed : ∀ id, before.Named id →
      (before.setRecord record).records id = before.records id :=
    fun id hid => hsame id fun hsame => hunnamed (hsame ▸ hid)
  exact { hvalid with
    fresh := by
      rintro id (hid | hid | hid)
      · exact hvalid.fresh id (.inl hid)
      · rcases List.mem_cons.mp hid with rfl | hid
        · exact hdrawn
        · exact hvalid.fresh id (.inr (.inl hid))
      · exact hvalid.fresh id (.inr (.inr hid))
    written := by
      intro id hid
      rcases List.mem_cons.mp hid with rfl | hid
      · exact hlate
      · exact hvalid.written id hid
    initial := by
      intro id hid
      refine (hsame id ?_).trans (hvalid.initial id hid)
      rintro rfl
      exact absurd hid (not_lt.mpr hlate)
    agents := by
      intro id stored hstored hid
      rcases update_eq hstored with ⟨rfl, hrecord⟩ | ⟨-, hbefore⟩
      · cases hrecord
        exact hagent
      · exact hvalid.agents id stored hbefore hid
    placed := by
      intro id stored hstored
      rcases update_eq hstored with ⟨rfl, -⟩ | ⟨-, hbefore⟩
      · exact .inr List.mem_cons_self
      · exact (hvalid.placed id stored hbefore).imp_right
          (List.mem_cons_of_mem _)
    lookups := by
      intro digest hdigest
      refine (hvalid.lookups digest hdigest).imp_right ?_
      rintro ⟨id, hlookup, hid, stored, hstored, hbears⟩
      exact ⟨id, hlookup, hid, stored, (hnamed id hid).trans hstored, hbears⟩
    commits := by
      intro commit hcommit id hid
      obtain ⟨hwritten, digest, stored, hstored, howned⟩ :=
        hvalid.commits commit hcommit id hid
      refine ⟨List.mem_cons_of_mem _ hwritten, digest, stored, ?_, howned⟩
      refine (hsame id ?_).trans hstored
      rintro rfl
      exact hunwritten hwritten }

theorem Valid.dropRecord {id : ℕ} (hunnamed : ¬before.Named id)
    (hdrawn : id < before.drawn) (hlate : init.drawn ≤ id) :
    Valid init (before.dropRecord id) := by
  have hsame : ∀ other, other ≠ id →
      (before.dropRecord id).records other = before.records other :=
    fun other hother => Function.update_of_ne hother _ _
  have hnamed : ∀ other, before.Named other →
      (before.dropRecord id).records other = before.records other :=
    fun other hother => hsame other fun hsame => hunnamed (hsame ▸ hother)
  exact { hvalid with
    fresh := by
      rintro other (hother | hother | hother)
      · exact hvalid.fresh other (.inl hother)
      · exact hvalid.fresh other (.inr (.inl hother))
      · rcases List.mem_cons.mp hother with rfl | hother
        · exact hdrawn
        · exact hvalid.fresh other (.inr (.inr hother))
    initial := by
      intro other hother
      refine (hsame other ?_).trans (hvalid.initial other hother)
      rintro rfl
      exact absurd hother (not_lt.mpr hlate)
    agents := by
      intro other stored hstored hother
      rcases update_eq hstored with ⟨-, hnone⟩ | ⟨-, hbefore⟩
      · cases hnone
      · exact hvalid.agents other stored hbefore hother
    placed := by
      intro other stored hstored
      rcases update_eq hstored with ⟨-, hnone⟩ | ⟨-, hbefore⟩
      · cases hnone
      · exact hvalid.placed other stored hbefore
    lookups := by
      intro digest hdigest
      refine (hvalid.lookups digest hdigest).imp_right ?_
      rintro ⟨other, hlookup, hother, stored, hstored, hbears⟩
      exact ⟨other, hlookup, hother, stored, (hnamed other hother).trans hstored,
        hbears⟩
    commits := by
      intro commit hcommit other hother
      obtain ⟨hwritten, digest, stored, hstored, howned⟩ :=
        hvalid.commits commit hcommit other hother
      have hnames : before.Named other := ⟨commit.agent, List.mem_map.mpr
        ⟨_, hvalid.stored commit hcommit, hother⟩⟩
      exact ⟨hwritten, digest, stored, (hnamed other hnames).trans hstored,
        howned⟩ }

theorem Valid.setLookup {digest : JsString} {id : Option ℕ}
    (hbears : digest ∈ init.digests → ∃ named, id = some named ∧
      before.Named named ∧ Bears before named digest) :
    Valid init (before.setLookup digest id) :=
  { hvalid with
    lookups := by
      intro other hother
      by_cases hsame : other = digest
      · subst hsame
        obtain ⟨named, rfl, hnamed⟩ := hbears hother
        exact .inr ⟨named, Function.update_self _ _ _, hnamed⟩
      · have hlookup : (before.setLookup digest id).lookups other =
            before.lookups other := Function.update_of_ne hsame _ _
        rw [hlookup]
        exact hvalid.lookups other hother }

theorem Valid.write {commit : SlotCommit}
    (hreplaced : before.slots commit.agent = commit.replaced.map .readable)
    (hstores : Stores init before commit) : Valid init (before.write commit) :=
  { hvalid with
    fresh := by
      rintro id (hid | hid)
      · rcases (named_write hreplaced).mp hid with hnamed | hstored
        · exact hvalid.fresh id (.inl hnamed)
        · exact hvalid.fresh id (.inr (.inl (hstores.unnamed hstored).2))
      · exact hvalid.fresh id (.inr hid)
    lookups := by
      intro digest hdigest
      refine (hvalid.lookups digest hdigest).imp_right ?_
      rintro ⟨id, hlookup, hnamed, hbears⟩
      exact ⟨id, hlookup, (named_write hreplaced).mpr (.inl hnamed), hbears⟩
    once := by
      intro agent
      by_cases hagent : agent = commit.agent
      · subst hagent
        rw [values_write hreplaced, List.filterMap_append]
        refine List.nodup_append.mpr ⟨hvalid.once _, ?_, ?_⟩
        · rw [List.filterMap_cons, List.filterMap_nil]
          split
          · exact List.nodup_nil
          · exact List.nodup_singleton _
        · intro id hid other hother hsame
          subst hsame
          obtain ⟨value, hvalue, htoken⟩ := List.mem_filterMap.mp hother
          cases List.mem_singleton.mp hvalue
          obtain ⟨old, hold, hnames⟩ := List.mem_filterMap.mp hid
          exact (hstores.unnamed htoken).1
            ⟨commit.agent, List.mem_map.mpr ⟨old, hold, hnames⟩⟩
      · rw [values_write_of_ne before commit hagent]
        exact hvalid.once agent
    origin := by
      intro agent value hvalue
      rcases (mem_values_write hreplaced).mp hvalue with hold | ⟨rfl, rfl⟩
      · refine (hvalid.origin agent value hold).imp_right ?_
        rintro ⟨past, hpast, hfacts⟩
        exact ⟨past, List.mem_append_left _ hpast, hfacts⟩
      · exact .inr ⟨commit,
          List.mem_append_right _ (List.mem_singleton_self _), rfl, rfl⟩
    stored := by
      intro past hpast
      refine (mem_values_write hreplaced).mpr ?_
      rcases List.mem_append.mp hpast with hold | hnew
      · exact .inl (hvalid.stored past hold)
      · cases List.mem_singleton.mp hnew
        exact .inr ⟨rfl, rfl⟩
    commits := by
      intro past hpast id hid
      rcases List.mem_append.mp hpast with hold | hnew
      · exact hvalid.commits past hold id hid
      · cases List.mem_singleton.mp hnew
        cases hstores with
        | rotation named _ digest _ _ hstored howned _ _ hwritten =>
            rw [hstored] at hid
            cases hid
            exact ⟨hwritten, digest, howned⟩
        | adoption named _ _ digest _ _ hstored _ howned _ _ _ hwritten =>
            rw [hstored] at hid
            cases hid
            exact ⟨hwritten, digest, howned⟩
        | revocation _ _ hstored _ _ =>
            rw [hstored] at hid
            cases hid }

theorem Valid.step {digests : Digests} {after : World}
    (hchanges : Changes digests init before after) : Valid init after := by
  cases hchanges with
  | still => exact hvalid
  | draw =>
      exact { hvalid with
        drawn := hvalid.drawn.trans (Nat.le_succ _)
        fresh := fun id hid => Nat.lt_succ_of_lt (hvalid.fresh id hid) }
  | mint digest =>
      exact { hvalid with
        digests := fun other hother =>
          List.mem_cons_of_mem _ (hvalid.digests other hother) }
  | stamp clashed _ => exact { hvalid with }
  | setRecord record hunwritten hunnamed hdrawn hlate hagent =>
      exact hvalid.setRecord hunwritten hunnamed hdrawn hlate hagent
  | dropRecord id hunnamed hdrawn hlate =>
      exact hvalid.dropRecord hunnamed hdrawn hlate
  | setClaim legacyId agent _ => exact { hvalid with }
  | setLookup digest id hbears => exact hvalid.setLookup hbears
  | write commit hreplaced hstores _ => exact hvalid.write hreplaced hstores

end Step

end Connecta.AccessTokens
