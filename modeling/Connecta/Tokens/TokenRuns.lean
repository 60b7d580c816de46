import Connecta.Tokens.TokenCalls

/-!
# Runs of the access tokens

Any calls, interleaved anyhow, with answers lost and operations left out that
land at any later time.
-/

namespace Connecta.AccessTokens

open Connecta.Programs
open Connecta.Runtime

variable {digests : Digests} {agents : List Agent} {init world : World}

/-! ## The values of a slot -/

theorem named_of_values {agent : Agent} {slot : StoredSlot} {id : ℕ}
    (hvalue : some (.readable slot) ∈ world.values agent)
    (hid : slot.tokenId? = some id) : world.Named id :=
  ⟨agent, List.mem_map.mpr ⟨_, hvalue, hid⟩⟩

/-- A slot stores what it has not stored before. -/
theorem Stores.fresh {commit : SlotCommit} (hstores : Stores init world commit)
    (hclock : world.clashed = false) :
    some (.readable commit.stored) ∉ world.values commit.agent := by
  cases hstores with
  | rotation id issuedAt digest expect _ hstored _ _ hunnamed _ =>
      exact fun hvalue => hunnamed (named_of_values hvalue (by rw [hstored]; rfl))
  | adoption id issuedAt legacyId digest expect _ hstored _ _ _ _ hunnamed _ =>
      exact fun hvalue => hunnamed (named_of_values hvalue (by rw [hstored]; rfl))
  | revocation time revocationId _ _ hfresh =>
      rcases hfresh with hclashed | hfresh
      · rw [hclock] at hclashed
        cases hclashed
      · exact hfresh

/-- Unless a revocation was built as one its slot had stored, no slot stores a
value twice. -/
def Unrepeated (world : World) : Prop :=
  world.clashed = false → ∀ agent, (world.values agent).Nodup

/-- The step lemma for the values. -/
theorem Unrepeated.step {after : World} (hunrepeated : Unrepeated world)
    (hchanges : Changes digests init world after) : Unrepeated after := by
  cases hchanges with
  | still | draw | mint | setRecord | dropRecord | setClaim | setLookup =>
      exact hunrepeated
  | stamp clashed hclashed =>
      intro hclock
      refine hunrepeated ?_
      by_contra hbefore
      rw [Bool.not_eq_false] at hbefore
      cases hclock.symm.trans (hclashed hbefore)
  | write commit hreplaced hstores _ =>
      intro hclock agent
      by_cases hagent : agent = commit.agent
      · subst hagent
        rw [values_write hreplaced]
        refine List.nodup_append.mpr
          ⟨hunrepeated hclock _, List.nodup_singleton _, ?_⟩
        rintro value hvalue other hother rfl
        cases List.mem_singleton.mp hother
        exact hstores.fresh hclock hvalue
      · rw [values_write_of_ne world commit hagent]
        exact hunrepeated hclock agent

theorem unrepeated_init (hinit : Initial init) : Unrepeated init := by
  intro _ agent
  rw [values_init hinit]
  exact List.nodup_singleton _

/-! ## Records that were retired -/

/-- A slot has named the record, and no longer does. -/
def Retired (world : World) (id : ℕ) : Prop :=
  ∃ agent, some id ∈ (world.past agent).map tokenOf

theorem values_since {begun : World} (hlater : Later begun world) (agent : Agent) :
    begun.past agent ++ begun.since world agent = world.values agent :=
  List.prefix_iff_eq_append.mp
    ((List.prefix_append _ _).trans (hlater.values agent))

/-- A record that was retired is named by no slot again. -/
theorem not_namedSince_of_past (hvalid : Valid init world) {begun : World}
    (hlater : Later begun world) {agent : Agent} {id : ℕ}
    (hpast : some id ∈ (begun.past agent).map tokenOf) :
    ¬NamedSince begun world agent id := by
  intro hnamed
  have honce := hvalid.once agent
  rw [← values_since hlater agent, List.filterMap_append] at honce
  obtain ⟨old, hold, htoken⟩ := List.mem_map.mp hpast
  obtain ⟨value, hvalue, hsame⟩ := List.mem_map.mp hnamed
  exact (List.nodup_append.mp honce).2.2 id
    (List.mem_filterMap.mpr ⟨old, hold, htoken⟩) id
    (List.mem_filterMap.mpr ⟨value, hvalue, hsame⟩) rfl

theorem not_retired_of_namedSince (hinit : Initial init)
    (hvalid : Valid init world) {begun : World} (hlater : Later begun world)
    {agent : Agent} {digest : JsString} {id : ℕ}
    (hnamed : NamedSince begun world agent id)
    (howned : Owned world agent digest id) : ¬Retired begun id := by
  rintro ⟨other, hpast⟩
  have hvalues : some id ∈ (world.values other).map tokenOf := by
    rw [← values_since hlater other, List.map_append]
    exact List.mem_append_left _ hpast
  obtain rfl := owner_of_values hinit hvalid hvalues howned
  exact not_namedSince_of_past hvalid hlater hpast hnamed

/-! ## Admission in one state -/

theorem readSlot_served {Result : Type} {agent : Agent} {after : World}
    {next : Except Loss (Option StoredSlot) → TokenProgram Result}
    {result : Result}
    (hserved : Served (tokenDiscipline digests init) (readSlot agent >>= next)
      world result after) :
    ∃ reply, Served (tokenDiscipline digests init) (next reply) world result
        after ∧
      ∀ slot, reply = .ok slot → world.slots agent = slot.map .readable := by
  change Served _ (.ask (TokenOp.getSlot agent) _) _ _ _ at hserved
  cases hserved with
  | ask stored hstored hrest =>
      obtain ⟨hslot, rfl⟩ := hstored
      rcases stored with _ | slot | text
      · refine ⟨_, hrest, ?_⟩
        rintro _ ⟨⟩
        exact hslot.symm
      · refine ⟨_, hrest, ?_⟩
        rintro _ ⟨⟩
        exact hslot.symm
      · exact ⟨_, hrest, by simp⟩

theorem read_served {Result : Type} {id : ℕ} {after : World}
    {next : Except Loss (Option Record) → TokenProgram Result}
    {result : Result}
    (hserved : Served (tokenDiscipline digests init) (read id >>= next)
      world result after) :
    ∃ reply, Served (tokenDiscipline digests init) (next reply) world result
        after ∧
      ∀ record, reply = .ok (some record) →
        world.records id = some (.readable record) ∧ record.id = id := by
  change Served _ (.ask (TokenOp.getRecord id) _) _ _ _ at hserved
  cases hserved with
  | ask stored hstored hrest =>
      obtain ⟨hrecord, rfl⟩ := hstored
      rcases stored with _ | record | text
      · exact ⟨_, hrest, by simp⟩
      · by_cases hid : record.id = id
        · simp only [if_pos hid] at hrest
          refine ⟨_, hrest, ?_⟩
          rintro _ ⟨⟩
          exact ⟨hrecord.symm, hid⟩
        · simp only [if_neg hid] at hrest
          exact ⟨_, hrest, by simp⟩
      · exact ⟨_, hrest, by simp⟩

/-- A secret admits as an agent in a world that nobody else changes. -/
def Admits (digests : Digests) (agents : List Agent) (init world : World)
    (token : JsString) (agent : Agent) : Prop :=
  ∃ after, Served (tokenDiscipline digests init) (authorize digests agents token)
    world (some agent) after

theorem refused_served {agent : Agent} {after : World} {Statement : Prop}
    (hserved : Served (tokenDiscipline digests init)
      (.done none : TokenProgram (Option Agent)) world (some agent) after) :
    Statement := by
  cases hserved

/-- Only the record that the slot names admits. -/
theorem Admits.named {token : JsString} {agent : Agent}
    (hadmits : Admits digests agents init world token agent) :
    ∃ id, tokenOf (world.slots agent) = some id ∧
      Owned world agent (digests.hashToken token) id := by
  obtain ⟨after, hserved⟩ := hadmits
  rw [authorize] at hserved
  split at hserved
  · exact refused_served hserved
  cases hserved with
  | ask lookup hlookup hrest =>
  obtain ⟨-, rfl⟩ := hlookup
  rcases lookup with _ | id | text
  · exact refused_served hrest
  case some.unreadable => exact refused_served hrest
  obtain ⟨reply, hread, hfound⟩ := read_served hrest
  rcases reply with loss | _ | record
  · exact refused_served hread
  · exact refused_served hread
  obtain ⟨hrecord, rfl⟩ := hfound record rfl
  cases hrefused : record.revoked || record.tokenHash ≠ digests.hashToken token ||
      record.tokenPrefix ≠ token.take 12 || record.principal with
  | true =>
      simp only [hrefused, if_true] at hread
      exact refused_served hread
  | false =>
  simp only [hrefused, Bool.false_eq_true, if_false] at hread
  have hdigest : record.tokenHash = digests.hashToken token := by
    simp only [Bool.or_eq_false_iff, decide_eq_false_iff_not, not_not] at hrefused
    exact hrefused.1.1.2
  cases hagent : record.agent with
  | none =>
      simp only [hagent] at hread
      exact refused_served hread
  | some owner =>
  simp only [hagent] at hread
  split at hread
  · exact refused_served hread
  obtain ⟨reply, hdecided, hslot⟩ := readSlot_served hread
  rcases reply with loss | slot
  · exact refused_served hdecided
  cases hnames : namesToken slot record.id with
  | false =>
      simp only [hnames, Bool.false_eq_true, if_false] at hdecided
      exact refused_served hdecided
  | true =>
  simp only [hnames, if_true] at hdecided
  cases hdecided
  refine ⟨record.id, ?_, record, hrecord, rfl, hagent, hdigest⟩
  rw [hslot slot rfl]
  exact tokenOf_of_names hnames

/-! ## Slots never resurrect a token -/

/-- Two secrets with one digest, which the store cannot tell apart. -/
def Collide (digests : Digests) (first second : JsString) : Prop :=
  first ≠ second ∧ digests.hashToken first = digests.hashToken second

/-- No slot stores a value twice, a record that was retired admits in no call
that begins afterwards, and in the state as it is only the record that a slot
names admits, with one secret. -/
structure NeverResurrected (system : System (tokenService digests agents init)) :
    Prop where
  values : ∀ agent, (system.world.values agent).Nodup
  retired : ∀ process token begun agent,
    system.running process = some (TokenCall.authorize token begun,
      .done (TokenResult.admission (some agent))) →
    ∃ id, NamedSince begun system.world agent id ∧
      Owned system.world agent (digests.hashToken token) id ∧ ¬Retired begun id
  named : ∀ token agent,
    Admits digests agents init system.world token agent →
    ∃ id, tokenOf (system.world.slots agent) = some id ∧
      Owned system.world agent (digests.hashToken token) id
  single : ∀ agent first second,
    Admits digests agents init system.world first agent →
    Admits digests agents init system.world second agent →
      first = second ∨ Collide digests first second

section Reached

variable {system : System (tokenService digests agents init)}
variable (hinit : Initial init)
variable (hreachable : Reachable (tokenDiscipline digests init) init system)

include hinit hreachable

theorem reachable_tokens_valid : Valid init system.world :=
  reachable_valid (token_disciplined hinit) (valid_init hinit) hreachable

theorem reachable_unrepeated : Unrepeated system.world :=
  reachable_invariant (token_disciplined hinit) (valid_init hinit)
    (unrepeated_init hinit)
    (fun _ _ hunrepeated _ hchanges => hunrepeated.step hchanges) hreachable

theorem authorize_promise {process : ℕ} {token : JsString} {begun : World}
    {admission : Option Agent}
    (hended : system.running process = some (TokenCall.authorize token begun,
      .done (TokenResult.admission admission))) :
    Later begun system.world ∧
      Admitted digests begun token admission ∅ system.world :=
  reachable_promise (token_disciplined hinit) (valid_init hinit) hreachable hended

/-- While no revocation is built as one its slot had stored, no slot resurrects a
token. -/
theorem slots_never_resurrect (hclock : system.world.clashed = false) :
    NeverResurrected system where
  values := reachable_unrepeated hinit hreachable hclock
  retired := by
    intro process token begun agent hended
    obtain ⟨hlater, hadmitted⟩ := authorize_promise hinit hreachable hended
    obtain ⟨id, hnamed, howned⟩ := hadmitted agent rfl
    exact ⟨id, hnamed, howned, not_retired_of_namedSince hinit
      (reachable_tokens_valid hinit hreachable) hlater hnamed howned⟩
  named := fun _ _ hadmits => hadmits.named
  single := by
    intro agent first second hfirst hsecond
    obtain ⟨id, hslot, record, hrecord, -, -, hdigest⟩ := hfirst.named
    obtain ⟨other, hother, stored, hstored, -, -, hsame⟩ := hsecond.named
    cases hslot.symm.trans hother
    cases hrecord.symm.trans hstored
    by_cases hequal : first = second
    · exact .inl hequal
    · exact .inr ⟨hequal, hdigest.symm.trans hsame⟩

/-- A record that was committed to a slot is never dropped, whatever cleans up after
lost answers: it stays that agent's, no other agent's slot has named it, and no
slot named a record twice. -/
theorem committed_records_kept :
    (∀ commit ∈ system.world.log, ∀ id, commit.stored.tokenId? = some id →
      ∃ digest, Owned system.world commit.agent digest id ∧
        ∀ other, some id ∈ (system.world.values other).map tokenOf →
          other = commit.agent) ∧
      ∀ agent, ((system.world.values agent).filterMap tokenOf).Nodup := by
  have hvalid := reachable_tokens_valid hinit hreachable
  refine ⟨fun commit hcommit id hid => ?_, hvalid.once⟩
  obtain ⟨-, digest, howned⟩ := hvalid.commits commit hcommit id hid
  exact ⟨digest, howned, fun other hnamed => owner_of_values hinit hvalid hnamed howned⟩

end Reached

/-! ## A rotation by itself -/

/-- The record of a rotation that nobody interrupts. -/
def servedRecord (digests : Digests) (world : World) (agent : Agent)
    (token : JsString) : Record :=
  rotationRecord digests agent [] token world.drawn 0

def servedCommit (world : World) (agent : Agent) (slot : Option StoredSlot) :
    SlotCommit where
  agent := agent
  replaced := slot
  stored := .issued world.drawn 0
  purpose := .rotation none

/-- The store after a rotation that nobody interrupts. -/
def World.rotated (world : World) (digests : Digests) (agent : Agent)
    (slot : Option StoredSlot) (token : JsString) : World :=
  let minted := { world with
    digests := digests.hashToken token :: world.digests
    drawn := world.drawn + 1 }
  let record := servedRecord digests world agent token
  ((minted.setRecord record).setLookup record.tokenHash (some record.id)).write
    (servedCommit world agent slot)

theorem swapSlot_served {agent : Agent} {expected : Option StoredSlot}
    {stored : StoredSlot} {purpose : Purpose}
    (hslot : world.slots agent = expected.map .readable) :
    (tokenDiscipline digests init).serve (.swapSlot agent expected stored purpose)
      world true (world.write {
        agent := agent
        replaced := expected
        stored := stored
        purpose := purpose }) := by
  simp only [tokenDiscipline, serveToken, if_pos hslot, and_self]

/-- A rotation served to its end. -/
theorem rotate_served {agent : Agent} (slot : Option StoredSlot) (token : JsString)
    (hagent : agent ∈ agents) (hslot : world.slots agent = slot.map .readable)
    (hshape : tokenShape token = true)
    (hfresh : digests.hashToken token ∉ world.digests)
    (hlookup : world.lookups (digests.hashToken token) = none) :
    Served (tokenDiscipline digests init)
      ((tokenService digests agents init).program (.rotate agent [] none)) world
      (.mutation {
        created := some world.drawn
        result := .ok (.issued token
          (slotView digests agent (some (.issued world.drawn 0)))) })
      (world.rotated digests agent slot token) := by
  refine .ask false rfl ?_
  simp only [hagent, not_true_eq_false, if_false]
  refine .ask (slot.map .readable) ⟨hslot.symm, rfl⟩ ?_
  rcases slot with _ | slot
  all_goals
    refine .ask token ⟨hshape, hfresh, rfl⟩ ?_
    refine .ask world.drawn ⟨rfl, rfl⟩ ?_
    refine .ask 0 rfl ?_
    refine .ask none ⟨hlookup.symm, rfl⟩ ?_
    refine .ask false rfl ?_
    refine .ask () rfl ?_
    refine .ask () rfl ?_
    refine .ask false rfl ?_
    refine .ask true (swapSlot_served ?_) ?_
    · exact hslot
    refine .ask false rfl ?_
    refine .ask true rfl ?_
    exact .done _ _

/-! ## A store to begin with -/

def plainDigests : Digests where
  hashToken := fun token => token
  slotRevision := fun _ _ => []

def ciAgent : Agent := JsString.ofAscii "ci"

/-- A secret whose random part is one letter. -/
def secretOf (letter : CodeUnit) : JsString :=
  JsString.ofAscii "cta_" ++ List.replicate 43 letter

def legacyRecord : Record where
  id := 0
  name := ciAgent
  tokenHash := secretOf 0x41
  tokenPrefix := (secretOf 0x41).take 12
  createdAt := 0
  createdBy := []
  principal := false
  agent := none
  revoked := false

/-- A store with one token issued before agents. -/
def legacyWorld : World where
  slots := fun _ => none
  records := fun id => if id = 0 then some (.readable legacyRecord) else none
  lookups := fun digest =>
    if digest = secretOf 0x41 then some (.readable 0) else none
  claims := fun _ => none
  drawn := 1
  digests := [secretOf 0x41]
  written := []
  dropped := []
  log := []
  clashed := false

theorem legacyWorld_unnamed (id : ℕ) : ¬legacyWorld.Named id := by
  rintro ⟨agent, hid⟩
  cases List.mem_singleton.mp hid

theorem legacyWorld_records {id : ℕ} {stored : Stored Record}
    (hstored : legacyWorld.records id = some stored) :
    id = 0 ∧ stored = .readable legacyRecord := by
  simp only [legacyWorld, Option.ite_none_right_eq_some, Option.some.injEq]
    at hstored
  exact ⟨hstored.1, hstored.2.symm⟩

theorem legacyWorld_initial : Initial legacyWorld where
  named := fun id hid => absurd hid (legacyWorld_unnamed id)
  records := by
    intro id stored hstored
    rw [(legacyWorld_records hstored).1]
    exact Nat.zero_lt_one
  digests := by
    intro id record hrecord
    cases (legacyWorld_records hrecord).2
    exact List.mem_singleton_self _
  owned := fun _ _ _ hslot => absurd (named_of_slot hslot) (legacyWorld_unnamed _)
  claimed := by
    rintro _ _ - - ⟨id, hid, -⟩
    exact absurd hid (legacyWorld_unnamed id)
  written := rfl
  dropped := rfl
  log := rfl
  clashed := rfl

/-! ## A value that repeats -/

def mutation (outcome : Outcome) : TokenProgram TokenResult :=
  .done (.mutation outcome)

/-- The commit of an uninterrupted revocation. -/
def revokedCommit (agent : Agent) (slot : StoredSlot) (revocationId : ℕ) :
    SlotCommit where
  agent := agent
  replaced := some slot
  stored := .revoked 0 (some revocationId)
  purpose := .revocation none

/-- A revocation is served up to its commit. -/
theorem revoke_advances {agent : Agent} {tokenId issuedAt : ℕ} {begun : World}
    (hagent : agent ∈ agents)
    (hslot : world.slots agent = some (.readable (.issued tokenId issuedAt))) :
    Advances (tokenDiscipline digests init)
      ((tokenService digests agents init).program (.revoke agent none begun))
      world
      (commitRevocation digests agent (some (.issued tokenId issuedAt)) none
        world.drawn 0 >>= mutation)
      ({ world with drawn := world.drawn + 1 }.stamp agent 0 world.drawn) := by
  refine .ask false rfl ?_
  simp only [hagent, not_true_eq_false, if_false]
  refine .ask (some (.readable (.issued tokenId issuedAt))) ⟨hslot.symm, rfl⟩ ?_
  refine .ask false rfl ?_
  refine .ask world.drawn ⟨rfl, rfl⟩ ?_
  refine .ask 0 rfl ?_
  exact .refl _ _

/-- Its commit lands, and the answer is lost. -/
theorem commitRevocation_lost
    {system : System (tokenService digests agents init)}
    (hreachable : Reachable (tokenDiscipline digests init) init system)
    {process : ℕ} {call : TokenCall} {agent : Agent} {slot : StoredSlot}
    {revocationId : ℕ}
    (hrunning : system.running process = some (call,
      commitRevocation digests agent (some slot) none revocationId 0 >>= mutation))
    (hwaiting : system.waiting 0 = none)
    (hslot : system.world.slots agent = some (.readable slot)) :
    Reachable (tokenDiscipline digests init) init { system with
      world := system.world.write (revokedCommit agent slot revocationId)
      running := Function.update system.running process (some (call,
        revokeCurrent digests agent revocationId reconcileAttempts >>= mutation)) }
    := by
  have habandoned := hreachable.tail
    (@Step.abandon _ _ _ _ _ _ _ system process 0 call _ _ .failed hrunning
      hwaiting)
  have hlanded := habandoned.tail (@Step.land _ _ _ _ _ _ _ _ 0
    (.swapSlot agent (some slot) (.revoked 0 (some revocationId))
      (.revocation none)) true _ (Function.update_self 0 _ system.waiting)
    (swapSlot_served hslot))
  have hnone : Function.update system.waiting 0 none = system.waiting :=
    Function.update_eq_self_iff.mpr hwaiting.symm
  simp only [Function.update_idem, hnone] at hlanded
  exact hlanded

/-- The rest of a revocation revokes what its slot names by then. -/
theorem revokeCurrent_advances {agent : Agent} {tokenId issuedAt revocationId : ℕ}
    (hslot : world.slots agent = some (.readable (.issued tokenId issuedAt))) :
    Advances (tokenDiscipline digests init)
      (revokeCurrent digests agent revocationId reconcileAttempts >>= mutation)
      world
      (settle none (.slot (slotView digests agent
        (some (.revoked 0 (some revocationId))))) >>= mutation)
      ((world.stamp agent 0 revocationId).write
        (revokedCommit agent (.issued tokenId issuedAt) revocationId)) := by
  refine .ask true rfl ?_
  refine .ask (some (.readable (.issued tokenId issuedAt))) ⟨hslot.symm, rfl⟩ ?_
  refine .ask 0 rfl ?_
  refine .ask true (swapSlot_served ?_) ?_
  · exact hslot
  · exact .refl _ _

/-- The store once the token of an agent was rotated first. -/
def rotatedWorld : World :=
  legacyWorld.rotated plainDigests ciAgent none (secretOf 0x42)

theorem rotatedWorld_slot :
    rotatedWorld.slots ciAgent = some (.readable (.issued 1 0)) :=
  slots_write _ _

/-- The agent `ci`, in the store with one legacy token. -/
abbrev ciService : Service World TokenOp TokenAnswer Loss :=
  tokenService plainDigests [ciAgent] legacyWorld

abbrev ciDiscipline : Discipline World Name TokenOp TokenAnswer :=
  tokenDiscipline plainDigests legacyWorld

/-- The first rotation ran by itself. -/
def rotatedSystem : System ciService where
  world := rotatedWorld
  running := Function.update (fun _ => none) 0 (some
    (TokenCall.rotate ciAgent [] none, mutation {
      created := some 1
      result := .ok (.issued (secretOf 0x42)
        (slotView plainDigests ciAgent (some (.issued 1 0)))) }))
  waiting := fun _ => none

theorem rotatedSystem_reachable :
    Reachable ciDiscipline legacyWorld rotatedSystem := by
  have hinit : Reachable ciDiscipline legacyWorld
      ({ world := legacyWorld, running := fun _ => none, waiting := fun _ => none } :
        System ciService) := .refl
  have hserved : Served ciDiscipline
      (ciService.program (TokenCall.rotate ciAgent [] none)) legacyWorld _
      rotatedWorld :=
    rotate_served none (secretOf 0x42) (List.mem_singleton_self ciAgent) rfl
      (by decide) (by decide) (by decide)
  exact hinit.starts 0 (TokenCall.rotate ciAgent [] none) rfl trivial
    hserved.advances

theorem committed_records_kept_rotated :
    ∃ digest, Owned rotatedWorld ciAgent digest 1 := by
  obtain ⟨digest, howned, -⟩ := (committed_records_kept legacyWorld_initial
    rotatedSystem_reachable).1 _ (List.mem_singleton_self _) 1 rfl
  exact ⟨digest, howned⟩

/-- The store once that token was revoked. -/
def revokedWorld : World :=
  ({ rotatedWorld with drawn := rotatedWorld.drawn + 1 }.stamp ciAgent 0
    rotatedWorld.drawn).write (revokedCommit ciAgent (.issued 1 0) 2)

theorem revokedWorld_slot :
    revokedWorld.slots ciAgent = some (.readable (.revoked 0 (some 2))) :=
  slots_write _ _

/-- The store once it was rotated again. -/
def replacedWorld : World :=
  revokedWorld.rotated plainDigests ciAgent (some (.revoked 0 (some 2)))
    (secretOf 0x43)

theorem replacedWorld_slot :
    replacedWorld.slots ciAgent = some (.readable (.issued 3 0)) :=
  slots_write _ _

theorem replacedWorld_stored :
    some (.readable (.revoked 0 (some 2))) ∈ replacedWorld.values ciAgent := by
  have hvalues : replacedWorld.values ciAgent = revokedWorld.values ciAgent ++ _ :=
    values_write revokedWorld_slot
  rw [hvalues, ← revokedWorld_slot]
  exact List.mem_append_left _ (slots_mem_values revokedWorld ciAgent)

/-- And once the same revocation stored its value again. -/
def repeatedWorld : World :=
  (replacedWorld.stamp ciAgent 0 2).write (revokedCommit ciAgent (.issued 3 0) 2)

theorem repeatedWorld_values : ¬(repeatedWorld.values ciAgent).Nodup := by
  have hvalues : repeatedWorld.values ciAgent =
      replacedWorld.values ciAgent ++ [some (.readable (.revoked 0 (some 2)))] :=
    values_write replacedWorld_slot
  rw [hvalues, List.nodup_append]
  exact fun hnodup => hnodup.2.2 _ replacedWorld_stored _
    (List.mem_singleton_self _) rfl

/-- The first commit of a revocation landed unanswered, and its agent has a new
token. -/
theorem replacedWorld_reachable : ∃ system : System ciService,
    Reachable ciDiscipline legacyWorld system ∧ system.world = replacedWorld ∧
      system.running 1 = some (TokenCall.revoke ciAgent none rotatedWorld,
        revokeCurrent plainDigests ciAgent 2 reconcileAttempts >>= mutation) := by
  have hmember := List.mem_singleton_self ciAgent
  have hbegun := rotatedSystem_reachable.starts 1
    (TokenCall.revoke ciAgent none rotatedWorld) rfl rfl
    (revoke_advances hmember rotatedWorld_slot)
  have hlost := commitRevocation_lost hbegun (Function.update_self _ _ _) rfl
    rotatedWorld_slot
  have hserved : Served ciDiscipline
      (ciService.program (TokenCall.rotate ciAgent [] none)) revokedWorld _
      replacedWorld :=
    rotate_served (some (.revoked 0 (some 2))) (secretOf 0x43) hmember
      revokedWorld_slot (by decide) (by decide) (by decide)
  exact ⟨_, hlost.starts 2 (TokenCall.rotate ciAgent [] none) rfl trivial
    hserved.advances, rfl, rfl⟩

/-- The revocation goes on in the same millisecond, and the slot holds its value a
second time. -/
theorem revocation_stores_twice : ∃ system : System ciService,
    Initial legacyWorld ∧ Reachable ciDiscipline legacyWorld system ∧
      ¬NeverResurrected system := by
  obtain ⟨⟨world, running, waiting⟩, hreachable, rfl, hpending⟩ :=
    replacedWorld_reachable
  exact ⟨_, legacyWorld_initial,
    hreachable.advances hpending (revokeCurrent_advances replacedWorld_slot),
    fun hnever => repeatedWorld_values (hnever.values ciAgent)⟩

/-- One rotation. -/
theorem slots_never_resurrect_rotated :
    rotatedSystem.world.slots ciAgent = some (.readable (.issued 1 0)) ∧
      NeverResurrected rotatedSystem :=
  ⟨rotatedWorld_slot,
    slots_never_resurrect legacyWorld_initial rotatedSystem_reachable rfl⟩

/-! ## Mutations report what happened -/

/-- Each commit replaced the slot its caller named. -/
def Conditional (digests : Digests) (world : World) : Prop :=
  ∀ commit ∈ world.log, Expected digests commit

theorem Conditional.step {after : World} (hconditional : Conditional digests world)
    (hchanges : Changes digests init world after) : Conditional digests after := by
  cases hchanges with
  | still | draw | mint | stamp | setRecord | dropRecord | setClaim | setLookup =>
      exact hconditional
  | write commit _ _ hexpected =>
      intro past hpast
      rcases List.mem_append.mp hpast with hold | hnew
      · exact hconditional past hold
      · cases List.mem_singleton.mp hnew
        exact hexpected

/-- What the calls that ended have told their callers. -/
structure Reported (system : System (tokenService digests agents init)) :
    Prop where
  /-- A secret is returned only where a commit stored its record. -/
  rotated : ∀ process agent issuedBy expect outcome token view,
    system.running process = some (TokenCall.rotate agent issuedBy expect,
      .done (TokenResult.mutation outcome)) →
    outcome.result = .ok (.issued token view) →
    ∃ record, outcome.created = some record.id ∧
      record.tokenHash = digests.hashToken token ∧
      Committed system.world agent record
  /-- No slot names what a call made that refused as a conflict, as a changed
  slot or as aborted. -/
  withdrawn : ∀ process call outcome fault,
    system.running process = some (call,
      .done (TokenResult.mutation outcome)) →
    outcome.result = .error fault → Withdrawn fault →
      Unpublished system.world outcome.created
  /-- A revoke resolves where the slot was not issued at some instant of it. -/
  revoked : ∀ process agent expect begun outcome reply,
    system.running process = some (TokenCall.revoke agent expect begun,
      .done (TokenResult.mutation outcome)) →
    outcome.result = .ok reply → RestedSince begun system.world agent
  expected : Conditional digests system.world

/-- Every interleaving of the calls reports what happened. -/
theorem mutations_report {system : System (tokenService digests agents init)}
    (hinit : Initial init)
    (hreachable : Reachable (tokenDiscipline digests init) init system) :
    Reported system where
  rotated := by
    intro process agent issuedBy expect outcome token view hended hresult
    have hpromise : Reporting (Rotated digests agent) outcome ∅ system.world :=
      reachable_promise (token_disciplined hinit) (valid_init hinit) hreachable
        hended
    exact hpromise.1 _ hresult token view rfl
  withdrawn := by
    intro process call outcome fault hended hresult hwithdrawn
    have hpromise : TokenCall.promise digests init call (.mutation outcome)
        system.world :=
      reachable_promise (token_disciplined hinit) (valid_init hinit) hreachable
        hended
    cases call with
    | rotate agent issuedBy expect => exact hpromise.2 fault hresult hwithdrawn
    | revoke agent expect begun => exact hpromise.2.2 fault hresult hwithdrawn
    | adopt tokenId agent expect begun =>
        cases tokenId with
        | none => exact hpromise.2.2 fault hresult hwithdrawn
        | some legacyId => exact hpromise.2.2 fault hresult hwithdrawn
    | authorize token begun => exact hpromise.elim
  revoked := by
    intro process agent expect begun outcome reply hended hresult
    have hpromise : Later begun system.world ∧
        Reporting (Revoked begun agent) outcome ∅ system.world :=
      reachable_promise (token_disciplined hinit) (valid_init hinit) hreachable
        hended
    exact hpromise.2.1 reply hresult
  expected := by
    refine reachable_invariant (token_disciplined hinit) (valid_init hinit) ?_
      (fun _ _ hconditional _ hchanges => hconditional.step hchanges) hreachable
    intro commit hcommit
    rw [hinit.log] at hcommit
    cases hcommit

/-- One rotation returned its secret. -/
theorem mutations_report_rotated :
    ∃ record, some 1 = some record.id ∧
      record.tokenHash = plainDigests.hashToken (secretOf 0x42) ∧
      Committed rotatedSystem.world ciAgent record :=
  (mutations_report legacyWorld_initial rotatedSystem_reachable).rotated 0 ciAgent
    [] none _ _ _ rfl rfl

end Connecta.AccessTokens
