import Connecta.OAuth.GrantStore

/-!
# Lawful writes of the grant record

A write is lawful when it keeps the record's epoch and moves its revision as its
purpose demands, or when it moves the record to an epoch whose id nobody has
used.  Every grant method asks lawful writes only, whenever they are served.
-/

namespace Connecta.GrantStore

open Connecta.Programs
open Connecta.Runtime

/-! ## What a write does to the grant it was made from -/

/-- A grant read from a stored one.  Its body may have stayed sealed. -/
structure Opened (stored grant : Grant) : Prop where
  epoch : grant.epoch = stored.epoch
  revision : grant.revision = stored.revision
  body : grant.body = stored.body ∨ grant.body = {}
  observation : ∀ observation, grant.observation = some observation →
    stored.observation = some observation ∧
      observation.revision = stored.revision

theorem Opened.self {stored grant : Grant} (hopened : Opened stored grant) :
    Opened grant grant where
  epoch := rfl
  revision := rfl
  body := .inl rfl
  observation observation hobservation :=
    ⟨hobservation, (hopened.observation observation hobservation).2.trans
      hopened.revision.symm⟩

/-- A body whose credentials were all written under its server. -/
def Bound (body : GrantBody) : Prop :=
  (∀ client, body.client = some client → client.under = body.issuer) ∧
    ∀ tokens, body.tokens = some tokens → tokens.under = body.issuer

/-- A body without a credential or a discovery. -/
def Vacant (body : GrantBody) : Prop :=
  body.tokens = none ∧ body.client = none ∧ body.discovery = none

theorem bound_empty (issuer : Option JsString) :
    Bound { issuer := issuer } :=
  ⟨nofun, nofun⟩

theorem Opened.bound {stored grant : Grant} (hopened : Opened stored grant)
    (hbound : Bound stored.body) : Bound grant.body := by
  rcases hopened.body with hbody | hbody
  · rwa [hbody]
  · rw [hbody]
    exact bound_empty none

theorem Opened.vacant {stored grant : Grant} (hopened : Opened stored grant)
    (hvacant : Vacant stored.body) : Vacant grant.body := by
  rcases hopened.body with hbody | hbody
  · rwa [hbody]
  · rw [hbody]
    exact ⟨rfl, rfl, rfl⟩

namespace Purpose

/-- A write that stores newly obtained tokens. -/
def obtains : Purpose → Bool
  | .tokens _ _ | .refresh _ => true
  | _ => false

/-- The epoch of the flow or refresh that obtained the tokens. -/
def begun : Purpose → Option Epoch
  | .tokens begun _ => begun
  | .refresh begun => some begun
  | _ => none

/-- Tokens of a refresh or of a code exchange. -/
def exchanged : Purpose → Bool
  | .tokens _ codeExchange => codeExchange
  | .refresh _ => true
  | _ => false

end Purpose

/-- A write within an epoch. -/
structure Stays (purpose : Purpose) (grant next : Grant) : Prop where
  epoch : next.epoch = grant.epoch
  obtained : purpose.obtains = true →
    grant.revision < next.revision ∧ next.observation = none
  kept : purpose.obtains = false → next.revision = grant.revision ∧
    (next.body.tokens = none ∨ next.body.tokens = grant.body.tokens)
  observed : purpose.obtains = false → next.observation = grant.observation ∨
    ∃ snapshot outcome, purpose = .outcome snapshot outcome ∧
      grant.epoch = snapshot.epoch ∧ grant.revision = snapshot.revision ∧
      next.observation = some { revision := snapshot.revision, outcome := outcome }

/-- A write that starts an epoch. -/
structure Moves (fresh : Set ℕ) (next : Grant) : Prop where
  observation : next.observation = none
  id : ∃ id ∈ fresh, next.epoch.id = some id

/-- What a write may make of the grant its writer read. -/
structure Allowed (purpose : Purpose) (grant next : Grant) (fresh : Set ℕ) :
    Prop where
  fenced : ∀ begun, purpose.begun = some begun → grant.epoch = begun
  obtained : purpose.obtains = true → next.epoch = grant.epoch ∨
    purpose.exchanged = false ∧ grant.body.issuer ≠ none ∧
      grant.body.issuer ≠ next.body.issuer
  disconnected : next.epoch.isDisconnected = true →
    (next.epoch = grant.epoch → Vacant grant.body) → Vacant next.body
  bound : Bound grant.body → Bound next.body
  epoch : Stays purpose grant next ∨ Moves fresh next

/-! ## The discipline -/

/-- The world after a write. -/
def World.write (world : World) (commit : Commit) : World :=
  { world with cell := some commit.stored, log := world.log ++ [commit] }

/-- The ids of the epochs the record has had. -/
def World.spent (world : World) : Set ℕ :=
  { id | ∃ commit ∈ world.log, commit.stored.grant.epoch.id = some id }

/-- A record the cell has held. -/
def Seen (world : World) (raw : Option StoredGrant) : Prop :=
  raw = none ∨ ∃ commit ∈ world.log, raw = some commit.stored

/-- A snapshot taken of a record the cell has held. -/
def Taken (world : World) (snapshot : Snapshot) : Prop :=
  ∃ commit ∈ world.log, commit.stored.grant.epoch = snapshot.epoch ∧
    commit.stored.grant.revision = snapshot.revision ∧
    commit.stored.grant.body.tokens.map Written.value = some snapshot.tokens

def Founded (world : World) (purpose : Purpose) : Prop :=
  ∀ snapshot outcome, purpose = .outcome snapshot outcome → Taken world snapshot

structure Lawful (world : World) (commit : Commit) : Prop where
  replaced : world.cell = commit.replaced
  allowed : ∃ grant, Opened (contents commit.replaced) grant ∧
    Allowed commit.purpose grant commit.stored.grant world.spentᶜ
  founded : Founded world commit.purpose

/-- Lawful changes: nothing, an id drawn, or a lawful write. -/
inductive Changes (before : World) : World → Prop where
  | still : Changes before before
  | draw : Changes before { before with drawn := before.drawn + 1 }
  | write (commit : Commit) :
      Lawful before commit → Changes before (before.write commit)

structure Valid (world : World) : Prop where
  seen : Seen world world.cell
  drawn : ∀ id ∈ world.spent, id < world.drawn

/-- The store serves one operation at a time. -/
def serveGrant : (op : GrantOp) → World → GrantAnswer op → World → Prop
  | .get, world, raw, later => raw = world.cell ∧ later = world
  | .compareAndSet expected next purpose, world, answer, later =>
      if world.cell = expected then
        answer = true ∧ later = world.write
          { replaced := expected, stored := next, purpose := purpose }
      else answer = false ∧ later = world
  | .randomUUID, world, id, later =>
      id = world.drawn ∧ later = { world with drawn := world.drawn + 1 }
  | .aborted, world, _, later | .unseal, world, _, later
  | .seal, world, _, later | .now, world, _, later => later = world

/-- A compare-and-set spends the id of the epoch it starts. -/
def grantNames : GrantOp → Set ℕ
  | .compareAndSet expected next _ =>
      { id | next.grant.epoch.id = some id ∧
        (contents expected).epoch.id ≠ some id }
  | _ => ∅

def grantDiscipline : Discipline World ℕ GrantOp GrantAnswer where
  serve := serveGrant
  turn := fun _ _ => False
  valid := Valid
  lawful := Changes
  names := grantNames
  minted := fun world => { id | id < world.drawn }
  spent := World.spent

theorem valid_empty : Valid World.empty :=
  ⟨.inl rfl, by rintro id ⟨commit, hcommit, -⟩; cases hcommit⟩

/-! ## What lasts -/

theorem Changes.log {before after : World} (hchanges : Changes before after) :
    before.log <+: after.log := by
  cases hchanges with
  | still => exact List.prefix_rfl
  | draw => exact List.prefix_rfl
  | write commit _ => exact List.prefix_append _ _

theorem log_of_rely {held : Set ℕ} {before after : World}
    (hrely : grantDiscipline.Rely held before after) :
    before.log <+: after.log := by
  induction hrely with
  | refl => exact List.prefix_rfl
  | tail _ hothers ih =>
      obtain ⟨names, -, hspends⟩ := hothers
      exact ih.trans hspends.lawful.log

theorem Seen.later {before after : World} {raw : Option StoredGrant}
    (hseen : Seen before raw) (hlog : before.log <+: after.log) :
    Seen after raw := by
  rcases hseen with hnone | ⟨commit, hcommit, hraw⟩
  · exact .inl hnone
  · exact .inr ⟨commit, hlog.subset hcommit, hraw⟩

theorem Taken.later {before after : World} {snapshot : Snapshot}
    (htaken : Taken before snapshot) (hlog : before.log <+: after.log) :
    Taken after snapshot := by
  obtain ⟨commit, hcommit, htokens⟩ := htaken
  exact ⟨commit, hlog.subset hcommit, htokens⟩

theorem Founded.later {before after : World} {purpose : Purpose}
    (hfounded : Founded before purpose) (hlog : before.log <+: after.log) :
    Founded after purpose :=
  fun snapshot outcome hpurpose =>
    (hfounded snapshot outcome hpurpose).later hlog

/-- The epoch of a record the cell has held is spent. -/
theorem Seen.spent {world : World} {raw : Option StoredGrant} {id : ℕ}
    (hseen : Seen world raw) (hid : (contents raw).epoch.id = some id) :
    id ∈ world.spent := by
  rcases hseen with rfl | ⟨commit, hcommit, rfl⟩
  · cases hid
  · exact ⟨commit, hcommit, hid⟩

theorem spent_write (world : World) (commit : Commit) :
    (world.write commit).spent =
      world.spent ∪ { id | commit.stored.grant.epoch.id = some id } := by
  ext id
  simp only [World.spent, World.write, List.mem_append, List.mem_singleton,
    Set.mem_union, Set.mem_ofPred_eq]
  constructor
  · rintro ⟨other, hother | rfl, hid⟩
    · exact .inl ⟨other, hother, hid⟩
    · exact .inr hid
  · rintro (⟨other, hother, hid⟩ | hid)
    · exact ⟨other, .inl hother, hid⟩
    · exact ⟨commit, .inr rfl, hid⟩

/-- Whoever holds the id of the epoch it starts may write, whenever the cell is
still as it was read. -/
theorem write_spends {held : Set ℕ} {world now later : World}
    {raw : Option StoredGrant} {stored : StoredGrant} {grant : Grant}
    {purpose : Purpose} {answer : Bool}
    (hheld : grantDiscipline.Held held world) (hseen : Seen world raw)
    (hopened : Opened (contents raw) grant)
    (hallowed : Allowed purpose grant stored.grant held)
    (hfounded : Founded now purpose)
    (hnow : grantDiscipline.Held
      (grantDiscipline.names (.compareAndSet raw stored purpose)) now)
    (hserved : grantDiscipline.serve (.compareAndSet raw stored purpose) now
      answer later) :
    grantDiscipline.Spends
      (grantDiscipline.names (.compareAndSet raw stored purpose)) now later := by
  simp only [grantDiscipline, serveGrant] at hserved
  split at hserved
  case isFalse _ =>
    rw [hserved.2]
    exact ⟨.still, hnow.valid, subset_rfl, Set.subset_union_left⟩
  case isTrue hcell =>
  have hepoch : Stays purpose grant stored.grant ∨
      Moves (now.spentᶜ ∩ { id | id < now.drawn }) stored.grant := by
    refine hallowed.epoch.imp_right fun hmoves => ?_
    obtain ⟨id, hid, hsame⟩ := hmoves.id
    have hname : id ∈ grantDiscipline.names
        (.compareAndSet raw stored purpose) := by
      refine ⟨hsame, fun hother => ?_⟩
      exact Set.disjoint_left.mp hheld.unspent hid (hseen.spent hother)
    exact ⟨hmoves.observation, id, ⟨Set.disjoint_left.mp hnow.unspent hname,
      hnow.minted hname⟩, hsame⟩
  have hspent : ∀ id, stored.grant.epoch.id = some id → id < now.drawn ∧
      (id ∈ now.spent ∨ id ∈ grantDiscipline.names
        (.compareAndSet raw stored purpose)) := by
    intro id hid
    by_cases hother : (contents raw).epoch.id = some id
    · have hold := (hcell ▸ hnow.valid.seen : Seen now raw).spent hother
      exact ⟨hnow.valid.drawn id hold, .inl hold⟩
    · exact ⟨hnow.minted ⟨hid, hother⟩, .inr ⟨hid, hother⟩⟩
  rw [hserved.2]
  refine ⟨.write _ ⟨hcell, ⟨grant, hopened, ?_⟩, hfounded⟩, ?_, subset_rfl, ?_⟩
  · exact { hallowed with
      epoch := hepoch.imp_right fun hmoves =>
        ⟨hmoves.observation, hmoves.id.imp fun id hid => ⟨hid.1.1, hid.2⟩⟩ }
  · refine ⟨.inr ⟨_, List.mem_append_right _ (List.mem_singleton_self _), rfl⟩, ?_⟩
    rw [spent_write]
    rintro id (hid | hid)
    · exact hnow.valid.drawn id hid
    · exact (hspent id hid).1
  · change World.spent _ ⊆ _
    rw [spent_write]
    rintro id (hid | hid)
    · exact .inl hid
    · exact (hspent id hid).2

/-! ## Rules -/

section Rules

variable {First Result : Type} {held : Set ℕ} {world : World}

/-- A promise about what a program returns; where it fails, nothing. -/
def Returning (post : Result → Set ℕ → World → Prop) :
    Except Fault Result → Set ℕ → World → Prop
  | .ok result, held, world => post result held world
  | .error _, _, _ => True

variable {post : Result → Set ℕ → World → Prop}

theorem failed_safe (fault : Fault) :
    Safe grantDiscipline (Returning post)
      (.done (.error fault) : GrantProgram (Except Fault Result)) held world :=
  fun _ _ _ => trivial

theorem returned_safe {result : Result}
    (hpost : ∀ now, grantDiscipline.Rely held world now →
      grantDiscipline.Held held now → post result held now) :
    Safe grantDiscipline (Returning post)
      (.done (.ok result) : GrantProgram (Except Fault Result)) held world :=
  hpost

/-- The operations that leave the store as it is. -/
def Quiet : GrantOp → Prop
  | .compareAndSet _ _ _ | .randomUUID => False
  | .get | .aborted | .unseal | .seal | .now => True

theorem Quiet.names {op : GrantOp} (hquiet : Quiet op) :
    grantDiscipline.names op = ∅ := by
  cases op <;> first | rfl | exact hquiet.elim

theorem Quiet.serve {op : GrantOp} (hquiet : Quiet op) {now later : World}
    {answer : GrantAnswer op}
    (hserved : grantDiscipline.serve op now answer later) : later = now := by
  cases op
  case get => exact hserved.2
  case compareAndSet => exact hquiet.elim
  case randomUUID => exact hquiet.elim
  all_goals exact hserved

theorem wait_safe {op : GrantOp}
    {next : GrantAnswer op → GrantProgram (Except Fault Result)}
    (hquiet : Quiet op)
    (hnext : ∀ now, grantDiscipline.Rely held world now →
      grantDiscipline.Held held now → ∀ answer,
        grantDiscipline.serve op now answer now →
          Safe grantDiscipline (Returning post) (next answer) held now) :
    Safe grantDiscipline (Returning post) (wait op next) held world := by
  refine Safe.observed hquiet.names (fun _ _ _ => hquiet.serve)
    (fun _ => Changes.still) fun now hrely hheld => ?_
  exact ⟨hnext now hrely hheld, fun loss => failed_safe loss.fault⟩

theorem andThen_safe {first : GrantProgram (Except Fault First)}
    {next : First → GrantProgram (Except Fault Result)}
    {middle : First → Set ℕ → World → Prop}
    (hheld : grantDiscipline.Held held world)
    (hfirst : Safe grantDiscipline (Returning middle) first ∅ world)
    (hnext : ∀ result own now, grantDiscipline.Rely held world now →
      grantDiscipline.Held (own ∪ held) now → middle result own now →
        Safe grantDiscipline (Returning post) (next result) (own ∪ held) now) :
    Safe grantDiscipline (Returning post) (andThen first next) held world := by
  refine Safe.call hheld hfirst fun outcome own now hrely hnow hmiddle => ?_
  cases outcome with
  | ok result => exact hnext result own now hrely hnow hmiddle
  | error fault => exact failed_safe fault

theorem unlessAborted_safe {commit : Bool} {left : Result}
    {next : GrantProgram (Except Fault Result)}
    (hleft : ∀ now, grantDiscipline.Rely held world now → post left held now)
    (hheld : grantDiscipline.Held held world)
    (hnext : ∀ now, grantDiscipline.Rely held world now →
      grantDiscipline.Held held now →
        Safe grantDiscipline (Returning post) next held now) :
    Safe grantDiscipline (Returning post) (unlessAborted commit left next) held
      world := by
  cases commit with
  | true => exact hnext world .refl hheld
  | false =>
      refine wait_safe trivial fun now hrely hnow aborted _ => ?_
      cases aborted with
      | true =>
          exact returned_safe fun later hlater _ =>
            hleft later (hrely.trans hlater)
      | false => exact hnext now hrely hnow

/-- A compare-and-set of an allowed write, whenever it is served. -/
theorem compareAndSet_safe {raw : Option StoredGrant} {stored : StoredGrant}
    {grant : Grant} {purpose : Purpose}
    {next : Except Interruption Bool → GrantProgram (Except Fault Result)}
    (hheld : grantDiscipline.Held held world) (hseen : Seen world raw)
    (hopened : Opened (contents raw) grant)
    (hallowed : Allowed purpose grant stored.grant held)
    (hfounded : Founded world purpose)
    (hwon : ∀ own now, Seen now (some stored) →
      Safe grantDiscipline (Returning post) (next (.ok true)) own now)
    (hmissed : ∀ now, grantDiscipline.Rely held world now →
      grantDiscipline.Held held now →
        Safe grantDiscipline (Returning post) (next (.ok false)) held now)
    (hlost : ∀ own now, own ⊆ held → grantDiscipline.Rely own world now →
      grantDiscipline.Held own now → ∀ loss,
        Safe grantDiscipline (Returning post) (next (.error loss)) own now) :
    Safe grantDiscipline (Returning post)
      (.ask (.compareAndSet raw stored purpose) next) held world := by
  have hnames : grantDiscipline.names (.compareAndSet raw stored purpose) ⊆
      held := by
    rintro id ⟨hid, hother⟩
    rcases hallowed.epoch with hstays | hmoves
    · exact absurd (hopened.epoch ▸ hstays.epoch ▸ hid) hother
    · obtain ⟨fresh, hfresh, hsame⟩ := hmoves.id
      cases hsame.symm.trans hid
      exact hfresh
  refine ⟨hnames, ?_, ?_⟩
  · intro now hrely hnow answer later hserved
    exact write_spends hheld hseen hopened hallowed
      (hfounded.later (log_of_rely hrely)) hnow hserved
  · intro now hrely hnow
    constructor
    · intro answer later hserved
      simp only [grantDiscipline, serveGrant] at hserved
      split at hserved
      case isTrue hcell =>
        obtain ⟨rfl, rfl⟩ := hserved
        exact hwon _ _ (.inr ⟨_, List.mem_append_right _ (List.mem_singleton_self _), rfl⟩)
      case isFalse hcell =>
        obtain ⟨rfl, rfl⟩ := hserved
        rw [hnow.kept_self]
        exact hmissed _ hrely hnow
    · intro loss
      exact hlost _ now Set.sdiff_subset (hrely.mono Set.sdiff_subset)
        (hnow.mono Set.sdiff_subset) loss

end Rules

end Connecta.GrantStore
