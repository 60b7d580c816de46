import Connecta.Tokens.TokenAdoptions

/-!
# The token calls keep their promises

`authorize` admits with a record that its agent's slot named while it read.  With
it the calls of the access tokens are one service, and each keeps its promise
whatever the others do.
-/

namespace Connecta.AccessTokens

open Connecta.Programs
open Connecta.Runtime

variable {digests : Digests} {agents : List Agent} {init world : World}
variable {held : Set Name}

/-! ## Admission -/

theorem owner_of_commits (hvalid : Valid init world) {id : ℕ} {agent other : Agent}
    {digest : JsString} {commit : SlotCommit} (hcommit : commit ∈ world.log)
    (hother : commit.agent = other) (hid : commit.stored.tokenId? = some id)
    (howned : Owned world agent digest id) : other = agent := by
  obtain ⟨-, _, record, hrecord, -, howner, -⟩ := hvalid.commits commit hcommit id hid
  obtain ⟨stored, hstored, -, hagent, -⟩ := howned
  rw [hstored] at hrecord
  cases hrecord
  rw [hagent, hother] at howner
  exact (Option.some.inj howner).symm

/-- A record that slots have named belongs to the agent of those slots. -/
theorem owner_of_values (hinit : Initial init) (hvalid : Valid init world) {id : ℕ}
    {agent other : Agent} {digest : JsString}
    (hnamed : some id ∈ (world.values other).map tokenOf)
    (howned : Owned world agent digest id) : other = agent := by
  obtain ⟨value, hvalue, htoken⟩ := List.mem_map.mp hnamed
  rcases hvalid.origin other value hvalue with hfirst | ⟨commit, hcommit, hagent, hstored⟩
  · rw [hfirst] at htoken
    obtain ⟨record, hrecord, -, howner, -⟩ := howned
    rw [hvalid.initial id (hinit.named id (named_of_slot htoken))] at hrecord
    rw [hinit.owned other id record htoken hrecord] at howner
    exact Option.some.inj howner
  · rw [hstored] at htoken
    exact owner_of_commits hvalid hcommit hagent htoken howned

/-- A record that was read is still the one that a slot names afterwards. -/
theorem record_of_slot (hinit : Initial init) (hbefore : Valid init world)
    {now : World} (hafter : Valid init now) (hlater : Later world now)
    {agent : Agent} {record : Record}
    (hrecord : world.records record.id = some (.readable record))
    (hslot : tokenOf (now.slots agent) = some record.id) :
    now.records record.id = some (.readable record) := by
  rcases hbefore.placed _ _ hrecord with hearly | hwritten
  · rw [hafter.initial _ hearly, ← hbefore.initial _ hearly, hrecord]
  · obtain ⟨-, -, -, -, _, stored, hstored, -⟩ :=
      commit_of_slot hinit hafter (hlater.written _ hwritten) hslot
    rw [hstored, ← hrecord, hlater.records _ hwritten _ hstored]

/-- An agent was admitted with a record that its slot named meanwhile. -/
def Admitted (digests : Digests) (begun : World) (token : JsString)
    (admission : Option Agent) (_ : Set Name) (world : World) : Prop :=
  ∀ agent, admission = some agent → ∃ id, NamedSince begun world agent id ∧
    Owned world agent (digests.hashToken token) id

theorem refuseToken_safe {begun : World} {token : JsString} :
    Safe (tokenDiscipline digests init) (Admitted digests begun token)
      (.done none : TokenProgram (Option Agent)) held world := by
  intro now _ _ agent hagent
  cases hagent

theorem authorize_safe (hinit : Initial init) {begun : World} {token : JsString}
    (hbegun : Later begun world) :
    Safe (tokenDiscipline digests init) (Admitted digests begun token)
      (authorize digests agents token) held world := by
  rw [authorize]
  split
  · exact refuseToken_safe
  refine quiet_safe trivial fun looked hlooking _ reply _ => ?_
  rcases reply with loss | _ | id | text
  · exact refuseToken_safe
  · exact refuseToken_safe
  case ok.some.unreadable => exact refuseToken_safe
  refine read_safe fun read hreading hread reply hfound => ?_
  rcases reply with loss | _ | record
  · exact refuseToken_safe
  · exact refuseToken_safe
  obtain ⟨hrecord, rfl⟩ := hfound record rfl
  cases hrefused : record.revoked || record.tokenHash ≠ digests.hashToken token ||
      record.tokenPrefix ≠ token.take 12 || record.principal with
  | true =>
      simp only [hrefused, if_true]
      exact refuseToken_safe
  | false =>
  simp only [hrefused, Bool.false_eq_true, if_false]
  have hdigest : record.tokenHash = digests.hashToken token := by
    simp only [Bool.or_eq_false_iff, decide_eq_false_iff_not, not_not] at hrefused
    exact hrefused.1.1.2
  cases hagent : record.agent with
  | none => exact refuseToken_safe
  | some agent =>
  simp only
  split
  · exact refuseToken_safe
  refine readSlot_safe fun now hnow hheld reply hslot => ?_
  rcases reply with loss | slot
  · exact refuseToken_safe
  cases hnames : namesToken slot record.id with
  | false =>
      simp only [hnames, Bool.false_eq_true, if_false]
      exact refuseToken_safe
  | true =>
  simp only [hnames, if_true]
  intro last hrely _ admitted hadmitted
  cases hadmitted
  have hnamed : tokenOf (now.slots agent) = some record.id := by
    rw [hslot slot rfl]
    exact tokenOf_of_names hnames
  have hstored := record_of_slot hinit hread.valid hheld.valid hnow hrecord hnamed
  have hlater := later_of_rely hrely
  refine ⟨record.id, ?_, record, ?_, rfl, hagent, hdigest⟩
  · exact (namedSince_of_slot
      (hbegun.trans (hlooking.trans (hreading.trans hnow))) hnamed).later hlater
  · rw [hlater.named _ (named_of_slot hnamed), hstored]

/-! ## Calls -/

/-- A call, with the world it begins in where its promise is about that world. -/
inductive TokenCall where
  | rotate (agent : Agent) (issuedBy : JsString) (expect : Option JsString)
  | revoke (agent : Agent) (expect : Option JsString) (begun : World)
  | adopt (tokenId : Option ℕ) (agent : Agent) (expect : Option JsString)
      (begun : World)
  | authorize (token : JsString) (begun : World)

inductive TokenResult where
  | mutation (outcome : Outcome)
  | admission (agent : Option Agent)

namespace TokenCall

def starts : TokenCall → World → Prop
  | .rotate _ _ _, _ => True
  | .revoke _ _ begun, world | .adopt _ _ _ begun, world
  | .authorize _ begun, world => begun = world

def program (digests : Digests) (agents : List Agent) :
    TokenCall → TokenProgram TokenResult
  | .rotate agent issuedBy expect =>
      AccessTokens.rotate digests agents agent issuedBy expect >>= fun outcome =>
        .done (.mutation outcome)
  | .revoke agent expect _ =>
      AccessTokens.revoke digests agents agent expect >>= fun outcome =>
        .done (.mutation outcome)
  | .adopt tokenId agent expect _ =>
      AccessTokens.adopt digests agents tokenId agent expect >>= fun outcome =>
        .done (.mutation outcome)
  | .authorize token _ =>
      AccessTokens.authorize digests agents token >>= fun agent =>
        .done (.admission agent)

def promise (digests : Digests) (init : World) :
    TokenCall → TokenResult → World → Prop
  | .rotate agent _ _, .mutation outcome, world =>
      Reporting (Rotated digests agent) outcome ∅ world
  | .revoke agent _ begun, .mutation outcome, world =>
      Later begun world ∧ Reporting (Revoked begun agent) outcome ∅ world
  | .adopt (some legacyId) agent _ begun, .mutation outcome, world =>
      Later begun world ∧
        Reporting (Adopted init begun agent legacyId) outcome ∅ world
  | .adopt none _ _ begun, .mutation outcome, world =>
      Later begun world ∧ Reporting (fun _ _ _ => False) outcome ∅ world
  | .authorize token begun, .admission agent, world =>
      Later begun world ∧ Admitted digests begun token agent ∅ world
  | .rotate _ _ _, .admission _, _ | .revoke _ _ _, .admission _, _
  | .adopt _ _ _ _, .admission _, _ | .authorize _ _, .mutation _, _ => False

end TokenCall

def tokenService (digests : Digests) (agents : List Agent) (init : World) :
    Service World TokenOp TokenAnswer Loss where
  Call := TokenCall
  Result := TokenResult
  starts := TokenCall.starts
  program := TokenCall.program digests agents
  promise := TokenCall.promise digests init

/-- A call ends in a world later than the one it began in. -/
theorem since_safe {Result : Type} {promise : Result → Set Name → World → Prop}
    {program : TokenProgram Result}
    (hsafe : Safe (tokenDiscipline digests init) promise program ∅ world) :
    Safe (tokenDiscipline digests init)
      (fun result _ now => Later world now ∧ ∃ own, promise result own now)
      program ∅ world := by
  have hframed := hsafe.frame (Set.disjoint_empty ∅) .refl
  rw [Set.union_empty] at hframed
  refine hframed.weaken ?_
  rintro result all now _ ⟨own, -, hrely, hpromise⟩
  exact ⟨later_of_rely hrely, own, hpromise⟩

theorem token_disciplined (hinit : Initial init) :
    Disciplined (tokenDiscipline digests init)
      (tokenService digests agents init) where
  turn := fun _ _ _ hturn => hturn.elim
  safe := by
    rintro call world hheld hstarts
    cases call with
    | rotate agent issuedBy expect => exact Safe.map (rotate_safe hinit)
    | revoke agent expect begun =>
        cases hstarts
        refine Safe.map ((since_safe (revoke_safe (Later.refl _))).weaken ?_)
        rintro outcome own now - ⟨hlater, _, hpromise⟩
        exact ⟨hlater, hpromise⟩
    | adopt tokenId agent expect begun =>
        cases hstarts
        cases tokenId with
        | some legacyId =>
            refine Safe.map
              ((since_safe (adopt_safe hinit (Later.refl _))).weaken ?_)
            rintro outcome own now - ⟨hlater, _, hpromise⟩
            exact ⟨hlater, hpromise⟩
        | none =>
            refine Safe.map ((since_safe adoptNothing_safe).weaken ?_)
            rintro outcome own now - ⟨hlater, _, hpromise⟩
            exact ⟨hlater, hpromise⟩
    | authorize token begun =>
        cases hstarts
        refine Safe.map
          ((since_safe (authorize_safe hinit (Later.refl _))).weaken ?_)
        rintro admission own now - ⟨hlater, _, hpromise⟩
        exact ⟨hlater, hpromise⟩

end Connecta.AccessTokens
