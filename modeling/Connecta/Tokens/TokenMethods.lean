import Connecta.Tokens.TokenRules

/-!
# The token mutations write lawfully

A call refuses as a conflict, as a changed slot or as aborted only while nobody
can commit its record, or once the slot that named the record has moved on.
-/

namespace Connecta.AccessTokens

open Connecta.Programs
open Connecta.Programs.Program (bind_assoc)
open Connecta.Runtime

variable {digests : Digests} {init world : World} {held : Set Name}

/-! ## What a call knows -/

/-- No slot names the record a call made. -/
def Unpublished (world : World) (created : Option ℕ) : Prop :=
  ∀ id, created = some id → ∀ agent, tokenOf (world.slots agent) ≠ some id

/-- No slot names it, and from now on none will. -/
def Secure (digests : Digests) (init : World) (created : Option ℕ)
    (held : Set Name) (world : World) : Prop :=
  ∀ now, Later world now → (tokenDiscipline digests init).Held held now →
    Unpublished now created

theorem secure_none : Secure digests init none held world :=
  fun _ _ _ _ hnone => nomatch hnone

theorem secure_held {id : ℕ} {role : Role} (hid : (id, role) ∈ held) :
    Secure digests init (some id) held world := by
  rintro now - hheld _ ⟨⟩ agent hnames
  exact unnamed_of_held hheld hid (named_of_slot hnames)

/-- The record was named, and its slot has moved on. -/
def Gone (world : World) (id : ℕ) : Prop :=
  world.Named id ∧ ∀ agent, tokenOf (world.slots agent) ≠ some id

theorem secure_gone {id : ℕ} (hgone : Gone world id) :
    Secure digests init (some id) held world := by
  rintro now hlater - _ ⟨⟩ agent hnames
  exact hgone.2 agent (hlater.kept agent id hgone.1 hnames)

theorem Secure.later {created : Option ℕ} {own : Set Name} {now : World}
    (hsecure : Secure digests init created held world) (hmore : held ⊆ own)
    (hlater : Later world now) : Secure digests init created own now :=
  fun after hafter hheld => hsecure after (hlater.trans hafter) (hheld.mono hmore)

/-- A record as its own call wrote it, which stands until it is dropped. -/
structure Written (world : World) (record : Record) : Prop where
  written : record.id ∈ world.written
  stands : record.id ∉ world.dropped →
    world.records record.id = some (.readable record)
  record : ∀ stored, world.records record.id = some stored →
    stored = .readable record

theorem written_of_records {record : Record} (hwritten : record.id ∈ world.written)
    (hrecord : world.records record.id = some (.readable record)) :
    Written world record where
  written := hwritten
  record := by
    intro stored hstored
    rw [hrecord] at hstored
    exact (Option.some.inj hstored).symm
  stands := fun _ => hrecord

theorem Written.later {record : Record} {now : World}
    (hwritten : Written world record) (hlater : Later world now) :
    Written now record where
  written := hlater.written _ hwritten.written
  record := fun stored hstored =>
    hwritten.record stored (hlater.records _ hwritten.written stored hstored)
  stands := by
    intro hundropped
    rw [hlater.stays _ hwritten.written hundropped]
    exact hwritten.stands fun hdropped =>
      hundropped (hlater.dropped _ hdropped)

theorem Written.owned {agent : Agent} {record : Record}
    (hwritten : Written world record) (howner : record.agent = some agent)
    (hundropped : record.id ∉ world.dropped) :
    Owned world agent record.tokenHash record.id :=
  ⟨record, hwritten.stands hundropped, rfl, howner, rfl⟩

/-- A record its agent's slot has named. -/
structure Committed (world : World) (agent : Agent) (record : Record) : Prop where
  commit : ∃ commit ∈ world.log, commit.agent = agent ∧
    commit.stored.tokenId? = some record.id
  named : world.Named record.id
  record : world.records record.id = some (.readable record)

theorem Committed.later {agent : Agent} {record : Record} {now : World}
    (hcommitted : Committed world agent record) (hlater : Later world now) :
    Committed now agent record where
  commit := by
    obtain ⟨commit, hcommit, hfacts⟩ := hcommitted.commit
    exact ⟨commit, hlater.log.subset hcommit, hfacts⟩
  named := hlater.names hcommitted.named
  record := (hlater.named _ hcommitted.named).trans hcommitted.record

/-- A slot names a record that was written only by a commit of its own agent. -/
theorem commit_of_slot (hinit : Initial init) (hvalid : Valid init world)
    {agent : Agent} {id : ℕ} (hwritten : id ∈ world.written)
    (hslot : tokenOf (world.slots agent) = some id) :
    ∃ commit ∈ world.log, commit.agent = agent ∧
      commit.stored.tokenId? = some id ∧
      ∃ digest, Owned world agent digest id := by
  rcases hvalid.origin agent _ (slots_mem_values world agent) with
    hbefore | ⟨commit, hcommit, hagent, hstored⟩
  · rw [hbefore] at hslot
    exact absurd (hinit.named id (named_of_slot hslot))
      (not_lt.mpr (hvalid.written id hwritten))
  · rw [hstored] at hslot
    obtain ⟨-, digest, howned⟩ := hvalid.commits commit hcommit id hslot
    exact ⟨commit, hcommit, hagent, hslot, digest, hagent ▸ howned⟩

theorem Written.committed (hinit : Initial init) (hvalid : Valid init world)
    {agent : Agent} {record : Record} (hwritten : Written world record)
    (hslot : tokenOf (world.slots agent) = some record.id) :
    Committed world agent record := by
  obtain ⟨commit, hcommit, hagent, hid, digest, stored, hstored, -⟩ :=
    commit_of_slot hinit hvalid hwritten.written hslot
  refine ⟨⟨commit, hcommit, hagent, hid⟩, named_of_slot hslot, ?_⟩
  rw [hstored, hwritten.record _ hstored]

/-- Once its own slot has moved on, no slot names the record. -/
theorem Committed.gone (hinit : Initial init) (hvalid : Valid init world)
    {agent : Agent} {record : Record} (hcommitted : Committed world agent record)
    (howner : record.agent = some agent)
    (hslot : tokenOf (world.slots agent) ≠ some record.id) :
    Gone world record.id := by
  refine ⟨hcommitted.named, fun other hother => ?_⟩
  obtain ⟨commit, hcommit, -, hid⟩ := hcommitted.commit
  obtain ⟨hwritten, -⟩ := hvalid.commits commit hcommit record.id hid
  obtain ⟨-, -, -, -, digest, stored, hstored, -, hagent, -⟩ :=
    commit_of_slot hinit hvalid hwritten hother
  rw [hcommitted.record] at hstored
  cases hstored
  rw [howner] at hagent
  cases hagent
  exact hslot hother

/-! ## Instants of a call -/

/-- The values a slot has had from an earlier world on. -/
def World.since (begun world : World) (agent : Agent) :
    List (Option (Stored StoredSlot)) :=
  (world.values agent).drop (begun.past agent).length

/-- A slot named a record at some instant from an earlier world on. -/
def NamedSince (begun world : World) (agent : Agent) (id : ℕ) : Prop :=
  some id ∈ (begun.since world agent).map tokenOf

/-- A slot was not issued at some instant from an earlier world on. -/
def RestedSince (begun world : World) (agent : Agent) : Prop :=
  ∃ slot : Option StoredSlot,
    slot.map .readable ∈ begun.since world agent ∧ issuedSlot slot = false

section Instants

variable {begun now : World} {agent : Agent}

theorem length_values (world : World) (agent : Agent) :
    (world.values agent).length = (world.past agent).length + 1 :=
  List.length_append

theorem slots_mem_since (hbegun : Later begun world) (hnow : Later world now) :
    world.slots agent ∈ begun.since now agent := by
  have hlength := (hbegun.values agent).length_le
  rw [length_values, length_values, Nat.add_le_add_iff_right] at hlength
  obtain ⟨rest, hrest⟩ := hnow.values agent
  rw [World.since, ← hrest, World.values, List.append_assoc,
    List.drop_append_of_le_length hlength]
  exact List.mem_append_right _ List.mem_cons_self

theorem namedSince_of_slot {id : ℕ} (hbegun : Later begun world)
    (hslot : tokenOf (world.slots agent) = some id) :
    NamedSince begun world agent id :=
  List.mem_map.mpr ⟨_, slots_mem_since hbegun (Later.refl world), hslot⟩

theorem NamedSince.later {id : ℕ} (hnamed : NamedSince begun world agent id)
    (hlater : Later world now) : NamedSince begun now agent id :=
  (((hlater.values agent).drop _).map tokenOf).subset hnamed

theorem RestedSince.later (hrested : RestedSince begun world agent)
    (hlater : Later world now) : RestedSince begun now agent := by
  obtain ⟨slot, hslot, hissued⟩ := hrested
  exact ⟨slot, ((hlater.values agent).drop _).subset hslot, hissued⟩

theorem restedSince_of_slot {slot : Option StoredSlot} (hbegun : Later begun world)
    (hslot : world.slots agent = slot.map .readable)
    (hissued : issuedSlot slot = false) : RestedSince begun world agent :=
  ⟨slot, hslot ▸ slots_mem_since hbegun (Later.refl world), hissued⟩

/-- A slot that names the record it named before was not written between. -/
theorem values_unmoved {id : ℕ} (hvalid : Valid init now) (hlater : Later world now)
    (hbefore : tokenOf (world.slots agent) = some id)
    (hafter : tokenOf (now.slots agent) = some id) :
    now.values agent = world.values agent := by
  obtain ⟨rest, hrest⟩ := hlater.values agent
  rcases List.eq_nil_or_concat rest with rfl | ⟨front, last, rfl⟩
  · rw [← hrest, List.append_nil]
  have honce := hvalid.once agent
  have hlast : last = now.slots agent := by
    have hends := congrArg List.getLast? hrest
    rw [List.concat_eq_append, ← List.append_assoc, World.values.eq_1 now,
      List.getLast?_concat, List.getLast?_concat] at hends
    exact Option.some.inj hends
  rw [← hrest, List.filterMap_append] at honce
  refine absurd rfl ((List.nodup_append.mp honce).2.2 id ?_ id ?_)
  · exact List.mem_filterMap.mpr ⟨_, slots_mem_values world agent, hbefore⟩
  · rw [List.concat_eq_append]
    exact List.mem_filterMap.mpr ⟨last, by simp, hlast ▸ hafter⟩

end Instants

/-! ## Outcomes -/

/-- The refusals that say a call left nothing behind. -/
def Withdrawn (fault : TokenFault) : Prop :=
  fault = .conflict ∨ fault = .slotChanged ∨ fault = .aborted

/-- The promise of a mutation. -/
def Reporting (success : Option ℕ → Reply → World → Prop) (outcome : Outcome)
    (_ : Set Name) (world : World) : Prop :=
  (∀ reply, outcome.result = .ok reply → success outcome.created reply world) ∧
    ∀ fault, outcome.result = .error fault → Withdrawn fault →
      Unpublished world outcome.created

section Outcomes

variable {success : Option ℕ → Reply → World → Prop} {created : Option ℕ}

theorem refuse_safe {fault : TokenFault}
    (hsecure : Withdrawn fault → Secure digests init created held world) :
    Safe (tokenDiscipline digests init) (Reporting success)
      (refuse created fault) held world := by
  intro now hrely hheld
  refine ⟨nofun, ?_⟩
  rintro _ ⟨⟩ hwithdrawn
  exact hsecure hwithdrawn now (later_of_rely hrely) hheld

theorem lost_safe (loss : Loss) :
    Safe (tokenDiscipline digests init) (Reporting success)
      (refuse created loss.fault) held world := by
  refine refuse_safe fun hwithdrawn => ?_
  cases loss <;> rcases hwithdrawn with h | h | h <;> cases h

theorem unknown_safe :
    Safe (tokenDiscipline digests init) (Reporting success)
      (refuse created .outcomeUnknown) held world :=
  lost_safe .unknown

theorem ifAborted_safe {Result : Type}
    {promise : Result → Set Name → World → Prop}
    {left next : TokenProgram Result}
    (hleft : ∀ now, Later world now →
      (tokenDiscipline digests init).Held held now →
        Safe (tokenDiscipline digests init) promise left held now)
    (hnext : ∀ now, Later world now →
      (tokenDiscipline digests init).Held held now →
        Safe (tokenDiscipline digests init) promise next held now) :
    Safe (tokenDiscipline digests init) promise (ifAborted left next) held
      world := by
  refine quiet_safe trivial fun now hlater hheld reply _ => ?_
  rcases reply with loss | aborted
  · exact hleft now hlater hheld
  · cases aborted with
    | true => exact hleft now hlater hheld
    | false => exact hnext now hlater hheld

theorem undecided_safe {fault : TokenFault}
    (hsecure : Secure digests init created held world) :
    Safe (tokenDiscipline digests init) (Reporting success)
      (undecided created fault) held world := by
  rw [undecided]
  split
  · refine ifAborted_safe (fun now hlater _ => ?_) fun _ _ _ => unknown_safe
    exact refuse_safe fun _ => hsecure.later subset_rfl hlater
  · exact refuse_safe fun _ => hsecure

theorem settle_safe {reply : Reply}
    (hsuccess : ∀ now, Later world now →
      (tokenDiscipline digests init).Held held now → success created reply now) :
    Safe (tokenDiscipline digests init) (Reporting success)
      (settle created reply) held world := by
  refine quiet_safe trivial fun now hlater _ answer _ => ?_
  rcases answer with loss | isOpen
  · exact unknown_safe
  · cases isOpen with
    | false => exact unknown_safe
    | true =>
        intro after hrely hheld
        refine ⟨?_, nofun⟩
        rintro _ ⟨⟩
        exact hsuccess after (hlater.trans (later_of_rely hrely)) hheld

end Outcomes

/-! ## Steps -/

section Steps

variable {Result : Type} {promise : Result → Set Name → World → Prop}

theorem readSlot_safe {agent : Agent}
    {next : Except Loss (Option StoredSlot) → TokenProgram Result}
    (hnext : ∀ now, Later world now →
      (tokenDiscipline digests init).Held held now → ∀ reply,
        (∀ slot, reply = .ok slot → now.slots agent = slot.map .readable) →
          Safe (tokenDiscipline digests init) promise (next reply) held now) :
    Safe (tokenDiscipline digests init) promise (readSlot agent >>= next) held
      world := by
  refine quiet_safe trivial fun now hlater hheld reply hserved => ?_
  rcases reply with loss | stored
  · exact hnext now hlater hheld (.error loss) nofun
  · obtain ⟨hstored, -⟩ := hserved stored rfl
    rcases stored with _ | slot | text
    · refine hnext now hlater hheld (.ok none) ?_
      rintro _ ⟨⟩
      exact hstored.symm
    · refine hnext now hlater hheld (.ok (some slot)) ?_
      rintro _ ⟨⟩
      exact hstored.symm
    · exact hnext now hlater hheld (.error .failed) nofun

theorem read_safe {id : ℕ}
    {next : Except Loss (Option Record) → TokenProgram Result}
    (hnext : ∀ now, Later world now →
      (tokenDiscipline digests init).Held held now → ∀ reply,
        (∀ record, reply = .ok (some record) →
          now.records id = some (.readable record) ∧ record.id = id) →
          Safe (tokenDiscipline digests init) promise (next reply) held now) :
    Safe (tokenDiscipline digests init) promise (read id >>= next) held
      world := by
  refine quiet_safe trivial fun now hlater hheld reply hserved => ?_
  rcases reply with loss | stored
  · exact hnext now hlater hheld (.error loss) nofun
  · obtain ⟨hstored, -⟩ := hserved stored rfl
    rcases stored with _ | record | text
    · exact hnext now hlater hheld (.ok none) nofun
    · by_cases hid : record.id = id
      · simp only [if_pos hid]
        refine hnext now hlater hheld (.ok (some record)) ?_
        rintro _ ⟨⟩
        exact ⟨hstored.symm, hid⟩
      · simp only [if_neg hid]
        exact hnext now hlater hheld (.error .failed) nofun
    · exact hnext now hlater hheld (.error .failed) nofun

theorem carries_safe {slot : Option StoredSlot} {digest : JsString}
    {next : Except Loss Bool → TokenProgram Result}
    (hheld : (tokenDiscipline digests init).Held held world)
    (hnext : ∀ now, Later world now →
      (tokenDiscipline digests init).Held held now → ∀ reply,
        (reply = .ok true → ∃ tokenId issuedAt,
          slot = some (.issued tokenId issuedAt) ∧ Bears now tokenId digest) →
          Safe (tokenDiscipline digests init) promise (next reply) held now) :
    Safe (tokenDiscipline digests init) promise (carries slot digest >>= next)
      held world := by
  rcases slot with _ | ⟨tokenId, issuedAt⟩ | ⟨revokedAt, revocationId⟩
  · exact hnext world (Later.refl world) hheld (.ok false) nofun
  · rw [carries, bind_assoc]
    refine read_safe fun now hlater hnow reply hread => ?_
    rcases reply with loss | record
    · exact hnext now hlater hnow (.error loss) nofun
    · refine hnext now hlater hnow _ fun hsame => ?_
      have hany := Except.ok.inj hsame
      rcases record with _ | record
      · cases hany
      · refine ⟨tokenId, issuedAt, rfl, record, (hread record rfl).1, ?_⟩
        exact of_decide_eq_true hany
  · exact hnext world (Later.refl world) hheld (.ok false) nofun

theorem agentCarrying_safe {digest : JsString} {agents : List Agent}
    {next : Except Loss (Option Agent) → TokenProgram Result}
    (hheld : (tokenDiscipline digests init).Held held world)
    (hnext : ∀ now, Later world now →
      (tokenDiscipline digests init).Held held now → ∀ reply,
        Safe (tokenDiscipline digests init) promise (next reply) held now) :
    Safe (tokenDiscipline digests init) promise
      (agentCarrying digest agents >>= next) held world := by
  induction agents generalizing world with
  | nil => exact hnext world (Later.refl world) hheld _
  | cons name rest ih =>
      rw [agentCarrying, bind_assoc]
      refine readSlot_safe fun now hlater hnow reply _ => ?_
      rcases reply with loss | slot
      · exact hnext now hlater hnow _
      · simp only [bind_assoc]
        refine carries_safe hnow fun read hread hheld reply _ => ?_
        rcases reply with loss | same
        · exact hnext read (hlater.trans hread) hheld _
        · cases same with
          | true => exact hnext read (hlater.trans hread) hheld _
          | false =>
              exact ih hheld fun after hafter =>
                hnext after (hlater.trans (hread.trans hafter))

theorem slotNames_safe {agent : Agent} {tokenId attempts : ℕ}
    {next : Except Loss Bool → TokenProgram Result}
    (hheld : (tokenDiscipline digests init).Held held world)
    (hnext : ∀ now, Later world now →
      (tokenDiscipline digests init).Held held now → ∀ reply,
        (reply = .ok true → tokenOf (now.slots agent) = some tokenId) →
          Safe (tokenDiscipline digests init) promise (next reply) held now) :
    Safe (tokenDiscipline digests init) promise
      (slotNames agent tokenId attempts >>= next) held world := by
  induction attempts generalizing world with
  | zero => exact hnext world (Later.refl world) hheld _ nofun
  | succ attempts ih =>
      refine quiet_safe trivial fun opened hopening hopened reply _ => ?_
      rcases reply with loss | isOpen
      · exact hnext opened hopening hopened _ nofun
      cases isOpen with
      | false => exact hnext opened hopening hopened _ nofun
      | true =>
      change Safe _ _ ((readSlot agent >>= _) >>= next) held opened
      rw [bind_assoc]
      refine readSlot_safe fun now hreading hnow reply hread => ?_
      have hlater := hopening.trans hreading
      rcases reply with loss | slot
      · cases loss with
        | unknown => exact hnext now hlater hnow _ nofun
        | failed =>
            exact ih hnow fun after hafter =>
              hnext after (hlater.trans hafter)
      · refine hnext now hlater hnow _ fun hnames => ?_
        have hslot := of_decide_eq_true (Except.ok.inj hnames)
        rw [hread slot rfl]
        cases slot with
        | none => cases hslot
        | some slot => exact hslot

end Steps

end Connecta.AccessTokens
