import Connecta.Tokens.TokenWorld

/-!
# Rules for the token operations

Whoever draws an id may set its record once, drop it while no slot has named it,
and commit it to one slot.  A rule for each operation says what its caller knows
afterwards, whoever else was served in between.
-/

namespace Connecta.AccessTokens

open Connecta.Programs
open Connecta.Runtime

/-! ## The discipline -/

/-- What the holder of an id may do with it. -/
inductive Role where
  | set
  | drop
  | commit

abbrev Name := ℕ × Role

def tokenNames : TokenOp → Set Name
  | .setRecord record => { (record.id, .set) }
  | .dropRecord record => { (record.id, .drop) }
  | .swapSlot _ _ next _ => { name | next.tokenId? = some name.1 ∧ name.2 ≠ .set }
  | _ => ∅

def World.spent (world : World) : Set Name :=
  { name | world.Named name.1 ∨ name.2 = .set ∧ name.1 ∈ world.written ∨
    name.2 = .drop ∧ name.1 ∈ world.dropped }

def tokenDiscipline (digests : Digests) (init : World) :
    Discipline World Name TokenOp TokenAnswer where
  serve := serveToken digests
  turn := fun _ _ => False
  valid := Valid init
  lawful := Changes digests init
  names := tokenNames
  minted := fun world => { name | name.1 < world.drawn }
  spent := World.spent

variable {digests : Digests} {init world : World} {held : Set Name}

theorem later_of_rely {after : World}
    (hrely : (tokenDiscipline digests init).Rely held world after) :
    Later world after := by
  induction hrely with
  | refl => exact Later.refl world
  | tail _ hothers ih =>
      obtain ⟨names, -, hspends⟩ := hothers
      exact ih.trans (Changes.later hspends.lawful)

/-- A held id that may be committed was never named. -/
theorem unnamed_of_held {id : ℕ} {role : Role}
    (hheld : (tokenDiscipline digests init).Held held world)
    (hid : (id, role) ∈ held) : ¬world.Named id :=
  fun hnamed => Set.disjoint_left.mp hheld.unspent hid (.inl hnamed)

/-! ## Operations that spend nothing -/

section Rules

variable {Result : Type} {promise : Result → Set Name → World → Prop}

/-- The operations that leave the store as it is. -/
def Quiet : TokenOp → Prop
  | .getSlot _ | .getRecord _ | .getLookup _ | .getClaim _ | .aborted
  | .windowOpen | .now => True
  | _ => False

theorem Quiet.names {op : TokenOp} (hquiet : Quiet op) :
    (tokenDiscipline digests init).names op = ∅ := by
  cases op <;> first | rfl | exact hquiet.elim

theorem Quiet.serve {op : TokenOp} (hquiet : Quiet op) {now later : World}
    {answer : TokenAnswer op}
    (hserved : (tokenDiscipline digests init).serve op now answer later) :
    later = now := by
  cases op
  case getSlot | getRecord | getLookup | getClaim => exact hserved.2
  case aborted | windowOpen | now => exact hserved
  all_goals exact hquiet.elim

theorem quiet_safe {op : TokenOp}
    {next : Except Loss (TokenAnswer op) → TokenProgram Result}
    (hquiet : Quiet op)
    (hnext : ∀ now, Later world now →
      (tokenDiscipline digests init).Held held now → ∀ reply,
        (∀ answer, reply = .ok answer → serveToken digests op now answer now) →
          Safe (tokenDiscipline digests init) promise (next reply) held now) :
    Safe (tokenDiscipline digests init) promise (.ask op next) held world := by
  refine Safe.observed hquiet.names (fun _ _ _ => hquiet.serve)
    (fun _ => Changes.still) fun now hrely hheld => ⟨?_, ?_⟩
  · intro answer hserved
    refine hnext now (later_of_rely hrely) hheld (.ok answer) ?_
    rintro _ ⟨⟩
    exact hserved
  · intro loss
    exact hnext now (later_of_rely hrely) hheld (.error loss) nofun

/-- An operation that mints and spends no name. -/
theorem plain_safe {op : TokenOp}
    {next : Except Loss (TokenAnswer op) → TokenProgram Result}
    (hnames : tokenNames op = ∅)
    (hserve : ∀ now, Later world now → Valid init now → ∀ answer later,
      serveToken digests op now answer later →
        Changes digests init now later ∧ later.drawn = now.drawn ∧
          later.spent = now.spent)
    (hanswered : ∀ now later, Later world now → Valid init now →
      Later world later → (tokenDiscipline digests init).Held held later →
        ∀ answer, serveToken digests op now answer later →
          Safe (tokenDiscipline digests init) promise (next (.ok answer)) held
            later)
    (hlost : ∀ now, Later world now →
      (tokenDiscipline digests init).Held held now → ∀ loss,
        Safe (tokenDiscipline digests init) promise (next (.error loss)) held
          now) :
    Safe (tokenDiscipline digests init) promise (.ask op next) held world := by
  have hspends : ∀ now, (tokenDiscipline digests init).Rely ∅ world now →
      Valid init now → ∀ answer later, serveToken digests op now answer later →
        (tokenDiscipline digests init).Spends ∅ now later := by
    intro now hrely hvalid answer later hserved
    obtain ⟨hchanges, hdrawn, hspent⟩ := hserve now (later_of_rely hrely) hvalid
      answer later hserved
    refine ⟨hchanges, hvalid.step hchanges, ?_, ?_⟩
    · exact fun name hname => lt_of_lt_of_eq hname hdrawn.symm
    · exact hspent.subset.trans Set.subset_union_left
  refine Safe.asked hnames hspends fun now hrely hheld => ⟨?_, ?_⟩
  · intro answer later hserved
    have hbefore := later_of_rely hrely
    obtain ⟨hchanges, hdrawn, hspent⟩ := hserve now hbefore hheld.valid answer
      later hserved
    have hminted : (tokenDiscipline digests init).minted later =
        (tokenDiscipline digests init).minted now := by
      simp only [tokenDiscipline, hdrawn]
    have hlater := hheld.kept (hspends now (hrely.mono (Set.empty_subset _))
      hheld.valid answer later hserved)
    rw [hheld.kept_same hminted hspent] at hlater ⊢
    exact hanswered now later hbefore hheld.valid (hbefore.trans hchanges.later)
      hlater answer hserved
  · exact hlost now (later_of_rely hrely) hheld

/-- The clock read for a revocation. -/
theorem stamp_safe {agent : Agent} {revocationId : ℕ}
    {next : Except Loss ℕ → TokenProgram Result}
    (hanswered : ∀ now later, Later world now → Later world later →
      (tokenDiscipline digests init).Held held later → ∀ time,
        (later.clashed = true ∨ some (.readable (.revoked time
          (some revocationId))) ∉ now.values agent) →
        later.values agent = now.values agent →
          Safe (tokenDiscipline digests init) promise (next (.ok time)) held
            later)
    (hlost : ∀ now, Later world now →
      (tokenDiscipline digests init).Held held now → ∀ loss,
        Safe (tokenDiscipline digests init) promise (next (.error loss)) held
          now) :
    Safe (tokenDiscipline digests init) promise
      (.ask (.revokedAt agent revocationId) next) held world := by
  refine plain_safe rfl ?_ ?_ hlost
  · rintro now - - time later rfl
    refine ⟨.stamp _ fun hclashed => ?_, rfl, rfl⟩
    rw [hclashed, Bool.true_or]
  · rintro now later hnow - hlater hheld time rfl
    refine hanswered now _ hnow hlater hheld time ?_ rfl
    by_cases hold : some (.readable (.revoked time (some revocationId))) ∈
        now.values agent
    · exact .inl (by rw [World.stamp, decide_eq_true hold, Bool.or_true])
    · exact .inr hold

/-- A new secret has a digest that no record had at first. -/
theorem mint_safe {next : Except Loss JsString → TokenProgram Result}
    (hanswered : ∀ now, Later world now →
      (tokenDiscipline digests init).Held held now → ∀ token,
        digests.hashToken token ∉ init.digests →
          Safe (tokenDiscipline digests init) promise (next (.ok token)) held now)
    (hlost : ∀ now, Later world now →
      (tokenDiscipline digests init).Held held now → ∀ loss,
        Safe (tokenDiscipline digests init) promise (next (.error loss)) held
          now) :
    Safe (tokenDiscipline digests init) promise (.ask .randomToken next) held
      world := by
  refine plain_safe rfl ?_ ?_ hlost
  · rintro now - - token later ⟨-, -, rfl⟩
    exact ⟨.mint _, rfl, rfl⟩
  · intro now later _ hvalid hlater hheld token hserved
    exact hanswered later hlater hheld token fun hdigest =>
      hserved.2.1 (hvalid.digests _ hdigest)

/-- A lookup of a digest that no record had at first. -/
theorem setLookup_safe {digest : JsString} {id : ℕ}
    {next : Except Loss Unit → TokenProgram Result}
    (hdigest : digest ∉ init.digests)
    (hnext : ∀ now, Later world now →
      (tokenDiscipline digests init).Held held now → ∀ reply,
        Safe (tokenDiscipline digests init) promise (next reply) held now) :
    Safe (tokenDiscipline digests init) promise (.ask (.setLookup digest id) next)
      held world := by
  refine plain_safe rfl ?_ ?_ fun now hnow hheld loss =>
    hnext now hnow hheld (.error loss)
  · rintro now - - answer later rfl
    exact ⟨.setLookup digest (some id) fun hknown => absurd hknown hdigest,
      rfl, rfl⟩
  · intro _ later _ _ hlater hheld answer _
    exact hnext later hlater hheld (.ok answer)

/-- A compare-and-set of a lookup. -/
theorem moveLookup_safe {digest : JsString} {expected : ℕ} {moved : Option ℕ}
    {next : Except Loss Bool → TokenProgram Result}
    (hmoved : ∀ now, Later world now → digest ∈ init.digests →
      ∃ named, moved = some named ∧ now.Named named ∧ Bears now named digest)
    (hnext : ∀ now, Later world now →
      (tokenDiscipline digests init).Held held now → ∀ reply,
        Safe (tokenDiscipline digests init) promise (next reply) held now) :
    Safe (tokenDiscipline digests init) promise
      (.ask (.moveLookup digest expected moved) next) held world := by
  refine plain_safe rfl ?_ ?_ fun now hnow hheld loss =>
    hnext now hnow hheld (.error loss)
  · intro now hnow _ answer later hserved
    simp only [serveToken] at hserved
    split at hserved
    · rw [hserved.2]
      exact ⟨.setLookup digest moved (hmoved now hnow), rfl, rfl⟩
    · rw [hserved.2]
      exact ⟨.still, rfl, rfl⟩
  · intro _ later _ _ hlater hheld answer _
    exact hnext later hlater hheld (.ok answer)

/-- The claim of a legacy record is whoever set it first. -/
theorem setClaim_safe {legacyId : ℕ} {agent : Agent}
    {next : Except Loss Bool → TokenProgram Result}
    (hanswered : ∀ now, Later world now →
      (tokenDiscipline digests init).Held held now → ∀ answer,
        (answer = true → now.claims legacyId = some (.readable agent)) →
          Safe (tokenDiscipline digests init) promise (next (.ok answer)) held
            now)
    (hlost : ∀ now, Later world now →
      (tokenDiscipline digests init).Held held now → ∀ loss,
        Safe (tokenDiscipline digests init) promise (next (.error loss)) held
          now) :
    Safe (tokenDiscipline digests init) promise
      (.ask (.setClaim legacyId agent) next) held world := by
  refine plain_safe rfl ?_ ?_ hlost
  · intro now _ _ answer later hserved
    simp only [serveToken] at hserved
    split at hserved
    case isTrue habsent =>
      rw [hserved.2]
      exact ⟨.setClaim legacyId agent habsent, rfl, rfl⟩
    case isFalse =>
      rw [hserved.2]
      exact ⟨.still, rfl, rfl⟩
  · intro now later _ _ hlater hheld answer hserved
    refine hanswered later hlater hheld answer ?_
    rintro rfl
    simp only [serveToken] at hserved
    split at hserved
    · rw [hserved.2]
      exact Function.update_self _ _ _
    · cases hserved.1

/-! ## Operations on a record of one's own -/

/-- A drawn id belongs to whoever drew it. -/
theorem draw_safe {next : Except Loss ℕ → TokenProgram Result}
    (hanswered : ∀ id own now, Later world now →
      (tokenDiscipline digests init).Held own now → held ⊆ own →
      (∀ role, (id, role) ∈ own) → init.drawn ≤ id →
        Safe (tokenDiscipline digests init) promise (next (.ok id)) own now)
    (hlost : ∀ now, Later world now →
      (tokenDiscipline digests init).Held held now → ∀ loss,
        Safe (tokenDiscipline digests init) promise (next (.error loss)) held
          now) :
    Safe (tokenDiscipline digests init) promise (.ask .randomUUID next) held
      world := by
  have hspends : ∀ now, (tokenDiscipline digests init).Rely ∅ world now →
      Valid init now → ∀ answer later,
        serveToken digests .randomUUID now answer later →
        (tokenDiscipline digests init).Spends ∅ now later := by
    rintro now - hvalid answer later ⟨-, rfl⟩
    refine ⟨.draw, hvalid.step (.draw : Changes digests init now _), ?_,
      Set.subset_union_left⟩
    exact fun name hname => Nat.lt_succ_of_lt hname
  refine Safe.asked rfl hspends fun now hrely hheld => ⟨?_, ?_⟩
  · intro answer later hserved
    have hlater := hheld.kept (hspends now (hrely.mono (Set.empty_subset _))
      hheld.valid answer later hserved)
    obtain ⟨rfl, rfl⟩ := hserved
    have hbefore := later_of_rely hrely
    have hdraws : Changes digests init now _ := .draw
    refine hanswered _ _ _ (hbefore.trans hdraws.later) hlater ?_ ?_
      hheld.valid.drawn
    · intro name hname
      exact ⟨.inl hname, Set.disjoint_left.mp hheld.unspent hname⟩
    · intro role
      refine ⟨.inr ⟨Nat.lt_succ_self _, Nat.lt_irrefl now.drawn⟩, ?_⟩
      rintro (hnamed | ⟨-, hwritten⟩ | ⟨-, hdropped⟩)
      · exact Nat.lt_irrefl _ (hheld.valid.fresh _ (.inl hnamed))
      · exact Nat.lt_irrefl _ (hheld.valid.fresh _ (.inr (.inl hwritten)))
      · exact Nat.lt_irrefl _ (hheld.valid.fresh _ (.inr (.inr hdropped)))
  · exact hlost now (later_of_rely hrely) hheld

/-- Whoever holds an id sets its record. -/
theorem setRecord_safe {record : Record}
    {next : Except Loss Unit → TokenProgram Result}
    (hid : (record.id, Role.set) ∈ held) (hlate : init.drawn ≤ record.id)
    (hagent : record.agent ≠ none)
    (hanswered : ∀ own now, Later world now →
      (tokenDiscipline digests init).Held own now →
      (∀ name ∈ held, name ≠ (record.id, Role.set) → name ∈ own) →
      record.id ∈ now.written →
      now.records record.id = some (.readable record) →
        Safe (tokenDiscipline digests init) promise (next (.ok ())) own now)
    (hlost : ∀ own now, Later world now →
      (tokenDiscipline digests init).Held own now →
      (∀ name ∈ held, name ≠ (record.id, Role.set) → name ∈ own) → ∀ loss,
        Safe (tokenDiscipline digests init) promise (next (.error loss)) own
          now) :
    Safe (tokenDiscipline digests init) promise (.ask (.setRecord record) next)
      held world := by
  have hspends : ∀ now, (tokenDiscipline digests init).Held
      ((tokenDiscipline digests init).names (.setRecord record)) now →
      (tokenDiscipline digests init).Spends
        ((tokenDiscipline digests init).names (.setRecord record)) now
        (now.setRecord record) := by
    intro now hheld
    have hmine : (record.id, Role.set) ∈
        (tokenDiscipline digests init).names (.setRecord record) := rfl
    have hfresh := Set.disjoint_left.mp hheld.unspent hmine
    have hchanges : Changes digests init now (now.setRecord record) :=
      .setRecord record (fun hwritten => hfresh (.inr (.inl ⟨rfl, hwritten⟩)))
        (fun hnamed => hfresh (.inl hnamed)) (hheld.minted hmine) hlate hagent
    refine ⟨hchanges, hheld.valid.step hchanges, subset_rfl, ?_⟩
    rintro ⟨id, role⟩ (hnamed | ⟨hrole, hwritten⟩ | hdropped)
    · exact .inl (.inl hnamed)
    · rcases List.mem_cons.mp hwritten with hnew | hold
      · exact .inr (Prod.ext hnew hrole)
      · exact .inl (.inr (.inl ⟨hrole, hold⟩))
    · exact .inl (.inr (.inr hdropped))
  refine ⟨?_, ?_, fun now hrely hheld => ⟨?_, ?_⟩⟩
  · rintro name rfl
    exact hid
  · rintro now - hheld answer later rfl
    exact hspends now hheld
  · rintro answer later rfl
    have hmine := hspends now (hheld.mono (by rintro name rfl; exact hid))
    refine hanswered _ _ ((later_of_rely hrely).trans hmine.lawful.later)
      (hheld.kept hmine) ?_ List.mem_cons_self (Function.update_self _ _ _)
    intro name hname hother
    refine ⟨.inl hname, fun hspent => ?_⟩
    rcases hmine.spent hspent with hbefore | hnew
    · exact Set.disjoint_left.mp hheld.unspent hname hbefore
    · exact hother hnew
  · intro loss
    exact hlost _ now (later_of_rely hrely) (hheld.mono Set.sdiff_subset)
      (fun name hname hother => ⟨hname, hother⟩) loss

/-- Whoever holds an id drops its record. -/
theorem dropRecord_safe {record : Record}
    {next : Except Loss Bool → TokenProgram Result}
    (hid : (record.id, Role.drop) ∈ held) (hlate : init.drawn ≤ record.id)
    (hnext : ∀ own now, Later world now →
      (tokenDiscipline digests init).Held own now →
      (∀ name ∈ held, name ≠ (record.id, Role.drop) → name ∈ own) → ∀ reply,
        Safe (tokenDiscipline digests init) promise (next reply) own now) :
    Safe (tokenDiscipline digests init) promise (.ask (.dropRecord record) next)
      held world := by
  have hspends : ∀ now, (tokenDiscipline digests init).Held
      ((tokenDiscipline digests init).names (.dropRecord record)) now →
      ∀ answer later, serveToken digests (.dropRecord record) now answer later →
      (tokenDiscipline digests init).Spends
        ((tokenDiscipline digests init).names (.dropRecord record)) now later := by
    intro now hheld answer later hserved
    have hmine : (record.id, Role.drop) ∈
        (tokenDiscipline digests init).names (.dropRecord record) := rfl
    have hfresh := Set.disjoint_left.mp hheld.unspent hmine
    simp only [serveToken] at hserved
    split at hserved
    case isFalse =>
      rw [hserved.2]
      exact ⟨.still, hheld.valid, subset_rfl, Set.subset_union_left⟩
    case isTrue =>
    rw [hserved.2]
    have hchanges : Changes digests init now (now.dropRecord record.id) :=
      .dropRecord record.id (fun hnamed => hfresh (.inl hnamed))
        (hheld.minted hmine) hlate
    refine ⟨hchanges, hheld.valid.step hchanges, subset_rfl, ?_⟩
    rintro ⟨id, role⟩ (hnamed | hwritten | ⟨hrole, hdropped⟩)
    · exact .inl (.inl hnamed)
    · exact .inl (.inr (.inl hwritten))
    · rcases List.mem_cons.mp hdropped with hnew | hold
      · exact .inr (Prod.ext hnew hrole)
      · exact .inl (.inr (.inr ⟨hrole, hold⟩))
  have hmine : (tokenDiscipline digests init).names (.dropRecord record) ⊆ held :=
    by rintro name rfl; exact hid
  refine ⟨hmine, ?_, fun now hrely hheld => ⟨?_, ?_⟩⟩
  · exact fun now _ hheld => hspends now hheld
  · intro answer later hserved
    have hspent := hspends now (hheld.mono hmine) answer later hserved
    refine hnext _ _ ((later_of_rely hrely).trans hspent.lawful.later)
      (hheld.kept hspent) ?_ (.ok answer)
    intro name hname hother
    refine ⟨.inl hname, fun hgone => ?_⟩
    rcases hspent.spent hgone with hbefore | hnew
    · exact Set.disjoint_left.mp hheld.unspent hname hbefore
    · exact hother hnew
  · intro loss
    exact hnext _ now (later_of_rely hrely) (hheld.mono Set.sdiff_subset)
      (fun name hname hother => ⟨hname, hother⟩) (.error loss)

/-- A compare-and-set of a slot. -/
theorem swapSlot_safe {agent : Agent} {expected : Option StoredSlot}
    {stored : StoredSlot} {purpose : Purpose}
    {next : Except Loss Bool → TokenProgram Result}
    (hnames : tokenNames (.swapSlot agent expected stored purpose) ⊆ held)
    (hexpected : Expected digests
      { agent := agent, replaced := expected, stored := stored,
        purpose := purpose })
    (hstores : ∀ now, Later world now → Valid init now →
      (∀ id, stored.tokenId? = some id → ¬now.Named id ∧ id ∉ now.dropped) →
      now.slots agent = expected.map .readable →
        Stores init now
          { agent := agent, replaced := expected, stored := stored,
            purpose := purpose })
    (hwon : ∀ own now later, Later world now → Later world later →
      (∀ id, stored.tokenId? = some id → ¬now.Named id) →
      now.slots agent = expected.map .readable →
      later = now.write
        { agent := agent, replaced := expected, stored := stored,
          purpose := purpose } →
      (tokenDiscipline digests init).Held own later →
      (∀ name ∈ held, name ∉ tokenNames
        (.swapSlot agent expected stored purpose) → name ∈ own) →
        Safe (tokenDiscipline digests init) promise (next (.ok true)) own later)
    (hmissed : ∀ now, Later world now →
      (tokenDiscipline digests init).Held held now →
        Safe (tokenDiscipline digests init) promise (next (.ok false)) held now)
    (hlost : ∀ own now, Later world now →
      (tokenDiscipline digests init).Held own now →
      (∀ name ∈ held, name ∉ tokenNames
        (.swapSlot agent expected stored purpose) → name ∈ own) → ∀ loss,
        Safe (tokenDiscipline digests init) promise (next (.error loss)) own
          now) :
    Safe (tokenDiscipline digests init) promise
      (.ask (.swapSlot agent expected stored purpose) next) held world := by
  have hfresh : ∀ now, (tokenDiscipline digests init).Held
      (tokenNames (.swapSlot agent expected stored purpose)) now →
      ∀ id, stored.tokenId? = some id → ¬now.Named id ∧ id ∉ now.dropped := by
    intro now hheld id hid
    have hmine : (id, Role.drop) ∈
        tokenNames (.swapSlot agent expected stored purpose) := ⟨hid, nofun⟩
    have hunspent := Set.disjoint_left.mp hheld.unspent hmine
    exact ⟨fun hnamed => hunspent (.inl hnamed),
      fun hdropped => hunspent (.inr (.inr ⟨rfl, hdropped⟩))⟩
  have hspends : ∀ now, Later world now →
      (tokenDiscipline digests init).Held
        (tokenNames (.swapSlot agent expected stored purpose)) now →
      ∀ answer later,
        serveToken digests (.swapSlot agent expected stored purpose) now answer
          later →
        (tokenDiscipline digests init).Spends
          (tokenNames (.swapSlot agent expected stored purpose)) now later := by
    intro now hlater hheld answer later hserved
    simp only [serveToken] at hserved
    split at hserved
    case isFalse =>
      rw [hserved.2]
      exact ⟨.still, hheld.valid, subset_rfl, Set.subset_union_left⟩
    case isTrue hslot =>
    rw [hserved.2]
    have hcommit := hstores now hlater hheld.valid (hfresh now hheld) hslot
    have hchanges : Changes digests init now (now.write _) :=
      .write _ hslot hcommit hexpected
    refine ⟨hchanges, hheld.valid.step hchanges, subset_rfl, ?_⟩
    rintro ⟨id, role⟩ (hnamed | hghost)
    · rcases (named_write hslot).mp hnamed with hold | hnew
      · exact .inl (.inl hold)
      · cases role with
        | set => exact .inl (.inr (.inl ⟨rfl, (hcommit.unnamed hnew).2⟩))
        | drop => exact .inr ⟨hnew, nofun⟩
        | commit => exact .inr ⟨hnew, nofun⟩
    · exact .inl (.inr hghost)
  refine ⟨hnames, ?_, fun now hrely hheld => ⟨?_, ?_⟩⟩
  · exact fun now hrely hheld => hspends now (later_of_rely hrely) hheld
  · intro answer later hserved
    have hbefore := later_of_rely hrely
    have hspent := hspends now hbefore (hheld.mono hnames) answer later hserved
    have hkept := hheld.kept hspent
    simp only [tokenDiscipline, serveToken] at hserved
    split at hserved
    case isTrue hslot =>
      obtain ⟨rfl, hlater⟩ := hserved
      exact hwon _ now later hbefore (hbefore.trans hspent.lawful.later)
        (fun id hid => (hfresh now (hheld.mono hnames) id hid).1) hslot hlater
        hkept fun name hname hother => ⟨.inl hname, fun hgone =>
          (hspent.spent hgone).elim
            (Set.disjoint_left.mp hheld.unspent hname) hother⟩
    case isFalse =>
      obtain ⟨rfl, rfl⟩ := hserved
      rw [hheld.kept_self]
      exact hmissed _ hbefore hheld
  · intro loss
    exact hlost _ now (later_of_rely hrely) (hheld.mono Set.sdiff_subset)
      (fun name hname hother => ⟨hname, hother⟩) loss

end Rules

end Connecta.AccessTokens
