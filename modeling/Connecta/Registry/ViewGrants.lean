import Connecta.Registry.ScopedView

/-!
# A view exposes its grants

Every method of a view asks the registry that serves a connector only where some
entry of the permission list names the connector and the connector is present
for the view's caller.  A listing keeps the tools that an entry grants, and what
a list means depends on its entries alone.
-/

namespace Connecta.Registry

open Connecta.Foundation
open Connecta.Runtime

variable {Args Facts Answer : Type}

/-- The connector exists for the caller: an agent without an owner has no
account on a mapped Workspace connector, and only a principal has personal
connectors. -/
def Present (root : Root) (scope : Scope) (id : JsString) : Prop :=
  ∃ connector, root.connectors.get? id = some connector ∧
    (scope.agentWithoutOwner = true → connector.workspaceSubject ≠ some .mapping) ∧
    (connector.personal = true → scope.principal.isSome = true)

/-- What resolving a registry leaves alone. -/
structure Kept (world later : World) : Prop where
  connectors : later.root.connectors = world.root.connectors
  acts : later.acts = world.acts

theorem Kept.refl (world : World) : Kept world world := ⟨rfl, rfl⟩

/-! ## Resolving a registry -/

theorem personalRegistry_connectors (root : Root) (idle : ℕ → Bool)
    (key : JsString) :
    (root.personalRegistry idle key).2.connectors = root.connectors := by
  rw [Root.personalRegistry]
  split
  · rfl
  · split_ifs
    · split <;> rfl
    · rfl

theorem personal_kept {scope : Scope} {idle : ℕ → Bool} {world later : World}
    {result : Except JsString (Option Delegate)}
    (hpersonal : scope.personal idle world = (result, later)) :
    Kept world later := by
  rw [Scope.personal] at hpersonal
  split at hpersonal
  · cases hpersonal
    exact Kept.refl world
  · rename_i key _
    have hconnectors := personalRegistry_connectors world.root idle key
    split at hpersonal
    · rename_i hcreated
      cases hpersonal
      rw [hcreated] at hconnectors
      exact ⟨hconnectors, rfl⟩
    · cases hpersonal
      exact Kept.refl world

namespace View

theorem connectorRegistry_kept {view : View} {idle : ℕ → Bool} {admission : Bool}
    {id : JsString} {world later : World} {result : Except JsString (Option Delegate)}
    (hresult : view.connectorRegistry idle admission id world = (result, later)) :
    Kept world later := by
  rw [connectorRegistry] at hresult
  split at hresult
  · cases hresult
    exact Kept.refl world
  · split_ifs at hresult
    · cases hresult
      exact Kept.refl world
    · cases hresult
      exact Kept.refl world
    · cases hresult
      exact Kept.refl world
    · exact personal_kept hresult

theorem registryFor_kept {view : View} {idle : ℕ → Bool} {admission : Bool}
    {id : JsString} {world later : World} {result : Except JsString (Option Delegate)}
    (hresult : view.registryFor idle admission id world = (result, later)) :
    Kept world later := by
  rw [registryFor] at hresult
  split_ifs at hresult
  · exact connectorRegistry_kept hresult
  · cases hresult
    exact Kept.refl world

/-- A connector is served only where it is present. -/
theorem connectorRegistry_present {view : View} {idle : ℕ → Bool}
    {admission : Bool} {id : JsString} {world later : World} {delegate : Delegate}
    (hserved : view.connectorRegistry idle admission id world =
      (.ok (some delegate), later)) : Present world.root view.scope id := by
  rw [connectorRegistry] at hserved
  split at hserved
  · cases hserved
  · rename_i connector hconnector
    refine ⟨connector, hconnector, ?_⟩
    split_ifs at hserved with hagent hshared hadmission
    · cases hserved
    · simp only [Bool.and_eq_true, decide_eq_true_eq, not_and] at hagent
      rw [Bool.not_eq_true'] at hshared
      exact ⟨hagent, fun hpersonal => absurd hpersonal (by simp [hshared])⟩
    · simp only [Bool.and_eq_true, decide_eq_true_eq, not_and] at hagent
      rw [Prod.mk.injEq, Except.ok.injEq] at hserved
      obtain ⟨key, _, hkey, -⟩ := view.owned delegate hserved.1
      exact ⟨hagent, fun _ => by rw [hkey]; rfl⟩
    · simp only [Bool.and_eq_true, decide_eq_true_eq, not_and] at hagent
      obtain ⟨key, _, hkey, -⟩ := Scope.personal_owned hserved delegate rfl
      exact ⟨hagent, fun _ => by rw [hkey]; rfl⟩

/-- The connector is granted and present. -/
def Admits (view : View) (world : World) (id : JsString) : Prop :=
  id ∈ view.allowed ∧ Present world.root view.scope id

theorem registryFor_admits {view : View} {idle : ℕ → Bool} {admission : Bool}
    {id : JsString} {world later : World} {delegate : Delegate}
    (hserved : view.registryFor idle admission id world =
      (.ok (some delegate), later)) : view.Admits world id := by
  rw [registryFor] at hserved
  split_ifs at hserved with hallowed
  · exact ⟨hallowed, connectorRegistry_present hserved⟩
  · cases hserved

theorem Admits.kept {view : View} {world later : World} {id : JsString}
    (hadmits : view.Admits later id) (hkept : Kept world later) :
    view.Admits world id := by
  obtain ⟨hallowed, hpresent⟩ := hadmits
  rw [Present, hkept.connectors] at hpresent
  exact ⟨hallowed, hpresent⟩

/-- A valid id: connectors of a registry have one. -/
theorem Admits.valid {view : View} {world : World} {id : JsString}
    (hadmits : view.Admits world id) : isConnectorId id = true := by
  obtain ⟨-, connector, hconnector, -⟩ := hadmits
  exact (world.root.keyed _ (OrderedMap.get?_eq_some_iff.mp hconnector)).2

/-! ## What a method asks -/

/-- Whatever was asked of a registry concerns a connector the view admits. -/
def Asks (view : View) (world later : World) : Prop :=
  ∃ asked, later.acts = world.acts ++ asked ∧
    ∀ act ∈ asked, view.Admits world act.id

theorem asks_of_kept {view : View} {world later : World} (hkept : Kept world later) :
    view.Asks world later :=
  ⟨[], by rw [hkept.acts, List.append_nil], by simp⟩

theorem asks_act {view : View} {world later : World} {id : JsString}
    {delegate : Delegate} {operation : Operation} (hkept : Kept world later)
    (hadmits : view.Admits world id) :
    view.Asks world (later.act delegate operation id) := by
  refine ⟨[⟨delegate, operation, id⟩], ?_, ?_⟩
  · rw [World.act, hkept.acts]
  · intro act hact
    rw [List.mem_singleton.mp hact]
    exact hadmits

theorem noteAbsentGrants_acts (id : JsString) (names : List JsString)
    (world : World) :
    (names.foldl (World.noteAbsentGrant id) world).acts = world.acts := by
  induction names generalizing world with
  | nil => rfl
  | cons name rest ih =>
      rw [List.foldl_cons, ih, World.noteAbsentGrant]
      dsimp only
      split_ifs <;> rfl

theorem forward_asks (view : View) (answers : Answers Args Facts Answer)
    (idle : ℕ → Bool) (operation : Operation) (admission : Bool)
    (missing : Except JsString (Reply Answer)) (id : JsString) (args : Args)
    (world : World) : view.Asks world
      (view.forward answers idle operation admission missing id args world).2 := by
  rw [forward]
  split <;> rename_i hserved
  · exact asks_of_kept (registryFor_kept hserved)
  · exact asks_of_kept (registryFor_kept hserved)
  · exact asks_act (registryFor_kept hserved) (registryFor_admits hserved)

theorem getTools_asks (view : View) (answers : Answers Args Facts Answer)
    (idle : ℕ → Bool) (id : JsString) (args : Args) (world : World) :
    view.Asks world (view.getTools answers idle id args world).2 := by
  rw [getTools]
  split <;> rename_i hserved
  · exact asks_of_kept (registryFor_kept hserved)
  · exact asks_of_kept (registryFor_kept hserved)
  · have hasks := @asks_act view world _ id ‹_› .getTools
      (registryFor_kept hserved) (registryFor_admits hserved)
    dsimp only
    split
    · exact hasks
    · split
      · exact hasks
      · obtain ⟨asked, hacts, hasked⟩ := hasks
        exact ⟨asked, (noteAbsentGrants_acts _ _ _).trans hacts, hasked⟩

theorem peekCatalog_asks (view : View) (answers : Answers Args Facts Answer)
    (idle : ℕ → Bool) (id : JsString) (args : Args) (world : World) :
    view.Asks world (view.peekCatalog answers idle id args world).2 := by
  rw [peekCatalog]
  split <;> rename_i hserved
  · exact asks_of_kept (registryFor_kept hserved)
  · exact asks_of_kept (registryFor_kept hserved)
  · have hasks := @asks_act view world _ id ‹_› .peekCatalog
      (registryFor_kept hserved) (registryFor_admits hserved)
    dsimp only
    split
    · exact hasks
    · exact hasks
    · split <;> exact hasks

/-! ## Connectors -/

theorem getConnector_admits {view : View} {idle : ℕ → Bool} {id : JsString}
    {world later : World} {connector : Connector}
    (hfound : view.getConnector idle id world = (.ok (some connector), later)) :
    view.Admits world id ∧ connector.id = id ∧ Kept world later := by
  rw [getConnector] at hfound
  split at hfound
  · rename_i served next hserved
    rw [Prod.mk.injEq, Except.ok.injEq, Option.bind_eq_some_iff] at hfound
    obtain ⟨⟨delegate, rfl, hconnector⟩, rfl⟩ := hfound
    refine ⟨registryFor_admits hserved, ?_, registryFor_kept hserved⟩
    have hentry : next.root.connectors.get? id = some connector := by
      cases delegate with
      | root => exact hconnector
      | personal => exact (Option.filter_eq_some_iff.mp hconnector).1
    exact (next.root.keyed _ (OrderedMap.get?_eq_some_iff.mp hentry)).1
  · cases hfound

theorem keepServed_admits {view : View} {idle : ℕ → Bool}
    {connectors kept : List Connector} {world later : World}
    (hkept : view.keepServed idle connectors world = (.ok kept, later)) :
    ∀ connector ∈ kept, view.Admits world connector.id := by
  induction connectors generalizing kept world with
  | nil =>
      cases hkept
      simp
  | cons first rest ih =>
      rw [keepServed] at hkept
      split at hkept
      · cases hkept
      · rename_i served next hserved
        split at hkept
        · rename_i others last hrest
          rw [Prod.mk.injEq, Except.ok.injEq] at hkept
          obtain ⟨rfl, rfl⟩ := hkept
          have hothers : ∀ connector ∈ others, view.Admits world connector.id :=
            fun connector hconnector =>
              (ih hrest connector hconnector).kept (registryFor_kept hserved)
          cases served with
          | none => exact hothers
          | some delegate =>
              intro connector hconnector
              rcases List.mem_cons.mp hconnector with rfl | hconnector
              · exact registryFor_admits hserved
              · exact hothers connector hconnector
        · cases hkept

/-! ## Listings -/

/-- The values a method returned, none where it threw. -/
def returned {Value : Type} (result : Except JsString (List Value)) : List Value :=
  match result with
  | .ok values => values
  | .error _ => []

/-- The tools of a peek. -/
def peeked (result : Except JsString (Option (CatalogPeek Facts))) :
    List (ToolDef Facts) :=
  match result with
  | .ok (some peek) => peek.tools
  | _ => []

/-- A tool the registry serving the connector to this caller returns, live or
stale, whatever was granted. -/
def Underlying (view : View) (idle : ℕ → Bool) (id : JsString) (world : World)
    (answer : Delegate → List (ToolDef Facts)) (tool : ToolDef Facts) : Prop :=
  ∃ delegate later, view.connectorRegistry idle false id world =
    (.ok (some delegate), later) ∧ tool ∈ answer delegate

def visible (view : View) (id : JsString) (tool : ToolDef Facts) : Bool :=
  match view.scope.granted id with
  | none => true
  | some granted => granted.contains tool.name

theorem underlying_iff {view : View} {idle : ℕ → Bool} {id : JsString}
    {world later : World} {served : Except JsString (Option Delegate)}
    (hserved : view.connectorRegistry idle false id world = (served, later))
    {answer : Delegate → List (ToolDef Facts)} {tool : ToolDef Facts} :
    view.Underlying idle id world answer tool ↔
      ∃ delegate, served = .ok (some delegate) ∧ tool ∈ answer delegate := by
  rw [Underlying, hserved]
  constructor
  · rintro ⟨delegate, last, heq, htool⟩
    exact ⟨delegate, (Prod.mk.inj heq).1, htool⟩
  · rintro ⟨delegate, rfl, htool⟩
    exact ⟨delegate, later, rfl, htool⟩

theorem mem_getTools {view : View} {answers : Answers Args Facts Answer}
    {idle : ℕ → Bool} {id : JsString} {args : Args} {world : World}
    {tool : ToolDef Facts} :
    tool ∈ returned (view.getTools answers idle id args world).1 ↔
      id ∈ view.allowed ∧ view.visible id tool = true ∧
        view.Underlying idle id world (fun delegate =>
          returned (answers.getTools delegate id args view.scope.asker)) tool := by
  rw [getTools, registryFor]
  by_cases hallowed : id ∈ view.allowed
  · rcases hserved : view.connectorRegistry idle false id world with ⟨served, later⟩
    rw [if_pos hallowed, underlying_iff hserved, visible]
    rcases served with message | _ | delegate
    · simp [returned]
    · simp [returned]
    · simp only [Except.ok.injEq, Option.some.injEq, exists_eq_left']
      cases answers.getTools delegate id args view.scope.asker with
      | error message => simp [returned]
      | ok tools =>
          cases view.scope.granted id with
          | none => simp [returned, hallowed]
          | some granted => simp [returned, hallowed, and_comm]
  · simp [hallowed, returned]

theorem mem_peekCatalog {view : View} {answers : Answers Args Facts Answer}
    {idle : ℕ → Bool} {id : JsString} {args : Args} {world : World}
    {tool : ToolDef Facts} :
    tool ∈ peeked (view.peekCatalog answers idle id args world).1 ↔
      id ∈ view.allowed ∧ view.visible id tool = true ∧
        view.Underlying idle id world (fun delegate =>
          peeked (answers.peekCatalog delegate id args view.scope.asker)) tool := by
  rw [peekCatalog, registryFor]
  by_cases hallowed : id ∈ view.allowed
  · rcases hserved : view.connectorRegistry idle false id world with ⟨served, later⟩
    rw [if_pos hallowed, underlying_iff hserved, visible]
    rcases served with message | _ | delegate
    · simp [peeked]
    · simp [peeked]
    · simp only [Except.ok.injEq, Option.some.injEq, exists_eq_left']
      rcases answers.peekCatalog delegate id args view.scope.asker with
        message | _ | peek
      · simp [peeked]
      · simp [peeked]
      · cases view.scope.granted id with
        | none => simp [peeked, hallowed]
        | some granted => simp [peeked, hallowed, and_comm]
  · simp [hallowed, peeked]

end View

/-! ## What a list grants -/

/-- The scope of a pool's callers. -/
def scopeOf (access : ConnectorAccess) (asker : Asker) : Scope where
  connectorIds := .only access.connectorIds
  toolAccess := access.toolAccess
  principalKey := asker.principalKey
  caller := asker.caller

/-- A view built from an accepted list. -/
def Built (idle : ℕ → Bool) (value : Json) (asker : Asker) (world : World)
    (view : View) : Prop :=
  ∃ access later, parseConnectorAccess value = .ok access ∧
    scopedView idle (scopeOf access asker) world = (.ok view, later)

/-- What a view takes from the list it was built from. -/
theorem scopedView_fields {idle : ℕ → Bool} {scope : Scope} {world later : World}
    {view : View} {ids : List JsString} (hids : scope.connectorIds = .only ids)
    (hview : scopedView idle scope world = (.ok view, later)) :
    view.allowed = ids ∧ view.scope = scope ∧
      scope.personal idle world = (.ok view.admissionPersonal, later) := by
  rw [scopedView, hids] at hview
  dsimp only at hview
  split at hview
  · cases hview
  · split at hview
    · rename_i hpersonal
      rw [Prod.mk.injEq, Except.ok.injEq] at hview
      obtain ⟨rfl, rfl⟩ := hview
      exact ⟨rfl, rfl, hpersonal⟩
    · cases hview

section Grants

variable {idle : ℕ → Bool} {value : Json} {asker : Asker} {start : World}
variable {view : View}

theorem Built.means (hbuilt : Built idle value asker start view) {id : JsString}
    (hid : isConnectorId id = true) : (id ∈ view.allowed ↔ Names value id) ∧
      (Names value id → (view.scope.granted id = none ↔ Lists value id)) ∧
      (Names value id → ∀ tool : ToolDef Facts, view.visible id tool = true ↔
        GrantsTool value id tool.name) := by
  obtain ⟨access, later, haccess, hview⟩ := hbuilt
  obtain ⟨hallowed, hscope, -⟩ := scopedView_fields rfl hview
  have hmeans := parseConnectorAccess_means haccess hid
  have hgranted : view.scope.granted id = access.granted id := by
    rw [hscope]
    rfl
  refine ⟨by rw [hallowed]; exact hmeans.named, fun hnames => ?_,
    fun hnames tool => ?_⟩
  · rw [hgranted]
    refine ⟨fun hnone => hmeans.whole hnone hnames, fun hlists => ?_⟩
    cases htools : access.granted id with
    | none => rfl
    | some tools => exact absurd hlists (hmeans.byTool tools htools).1
  · rw [View.visible, hgranted, GrantsTool]
    cases htools : access.granted id with
    | none => exact iff_of_true rfl (.inl (hmeans.whole htools hnames))
    | some tools =>
        obtain ⟨hnot, htool⟩ := hmeans.byTool tools htools
        simp [hnot, htool]

theorem Underlying.valid {idle : ℕ → Bool} {id : JsString} {world : World}
    {answer : Delegate → List (ToolDef Facts)} {tool : ToolDef Facts}
    (hunderlying : view.Underlying idle id world answer tool) :
    isConnectorId id = true := by
  obtain ⟨delegate, later, hserved, -⟩ := hunderlying
  obtain ⟨connector, hconnector, -⟩ := View.connectorRegistry_present hserved
  exact (world.root.keyed _ (OrderedMap.get?_eq_some_iff.mp hconnector)).2

theorem names_of_grantsTool {id toolName : JsString}
    (hgrants : GrantsTool value id toolName) : Names value id :=
  hgrants.imp_right fun hlists => ⟨toolName, hlists⟩

/-- The view shows a tool exactly where the registry serving it does and an
entry of the list grants it. -/
theorem Built.shows (hbuilt : Built idle value asker start view)
    {now : ℕ → Bool} {id : JsString} {world : World}
    {answer : Delegate → List (ToolDef Facts)} {tool : ToolDef Facts} :
    (id ∈ view.allowed ∧ view.visible id tool = true ∧
        view.Underlying now id world answer tool) ↔
      view.Underlying now id world answer tool ∧ GrantsTool value id tool.name := by
  constructor
  · rintro ⟨hallowed, hvisible, hunderlying⟩
    obtain ⟨hnamed, -, hgrants⟩ := hbuilt.means (Underlying.valid hunderlying)
    exact ⟨hunderlying, (hgrants (hnamed.mp hallowed) tool).mp hvisible⟩
  · rintro ⟨hunderlying, hgranted⟩
    obtain ⟨hnamed, -, hgrants⟩ := hbuilt.means (Underlying.valid hunderlying)
    have hnames := names_of_grantsTool hgranted
    exact ⟨hnamed.mpr hnames, (hgrants hnames tool).mpr hgranted, hunderlying⟩

/-- An admitted connector is named by an entry of the list. -/
theorem Built.names (hbuilt : Built idle value asker start view) {world : World}
    {id : JsString} (hadmits : view.Admits world id) :
    Names value id ∧ Present world.root view.scope id :=
  ⟨(@Built.means Unit _ _ _ _ _ hbuilt id hadmits.valid).1.mp hadmits.1, hadmits.2⟩

/-! ## Views of lists with the same entries -/

variable {other : Json} {right : View}

theorem Built.connectorRegistry_eq (hbuilt : Built idle value asker start view)
    (hright : Built idle other asker start right) :
    view.connectorRegistry = right.connectorRegistry := by
  obtain ⟨access, later, -, hview⟩ := hbuilt
  obtain ⟨access', later', -, hview'⟩ := hright
  obtain ⟨-, hscope, hpersonal⟩ := scopedView_fields rfl hview
  obtain ⟨-, hscope', hpersonal'⟩ := scopedView_fields rfl hview'
  have hadmission : view.admissionPersonal = right.admissionPersonal := by
    have hboth := hpersonal.symm.trans (Eq.trans (by rfl) hpersonal')
    exact Except.ok.inj (Prod.mk.inj hboth).1
  have hagent : view.scope.agentWithoutOwner = right.scope.agentWithoutOwner := by
    rw [hscope, hscope']
    rfl
  have hown : view.scope.personal = right.scope.personal := by
    rw [hscope, hscope']
    rfl
  funext now admission id world
  rw [View.connectorRegistry, View.connectorRegistry, hadmission, hagent, hown]

/-- More entries serve at least the same connectors. -/
theorem Built.allowed_mono (hbuilt : Built idle value asker start view)
    (hright : Built idle other asker start right)
    (hentries : ∀ address, Lists value address → Lists other address)
    {id : JsString} (hid : isConnectorId id = true) (hallowed : id ∈ view.allowed) :
    id ∈ right.allowed := by
  rw [(@Built.means Unit _ _ _ _ _ hright id hid).1]
  rcases (@Built.means Unit _ _ _ _ _ hbuilt id hid).1.mp hallowed with
    hwhole | ⟨toolName, htool⟩
  · exact .inl (hentries _ hwhole)
  · exact .inr ⟨toolName, hentries _ htool⟩

theorem Built.registryFor_eq (hbuilt : Built idle value asker start view)
    (hright : Built idle other asker start right)
    (hentries : ∀ address, Lists value address ↔ Lists other address) :
    view.registryFor = right.registryFor := by
  funext now admission id world
  rw [View.registryFor, View.registryFor, hbuilt.connectorRegistry_eq hright]
  cases hconnector : world.root.connectors.get? id with
  | none =>
      have hnone : right.connectorRegistry now admission id world = (.ok none, world) := by
        rw [View.connectorRegistry, hconnector]
      rw [hnone, ite_self, ite_self]
  | some connector =>
      have hid := (world.root.keyed _ (OrderedMap.get?_eq_some_iff.mp hconnector)).2
      have hsame : id ∈ view.allowed ↔ id ∈ right.allowed :=
        ⟨hbuilt.allowed_mono hright (fun address => (hentries address).mp) hid,
          hright.allowed_mono hbuilt (fun address => (hentries address).mpr) hid⟩
      simp only [hsame]

end Grants

/-! ## The claims of a view -/

/-- The worlds the methods that reach a registry leave behind. -/
def View.afterwards (view : View) (answers : Answers Args Facts Answer)
    (idle : ℕ → Bool) (id : JsString) (args : Args) (world : World) : List World :=
  [(view.getTools answers idle id args world).2,
    (view.peekCatalog answers idle id args world).2,
    (view.contextFor answers idle id args world).2,
    (view.admitCall answers idle id args world).2,
    (view.credentialDriftFor answers idle id args world).2,
    (view.observedOutputSchema answers idle id args world).2,
    (view.observeOutputShape answers idle id args world).2,
    (view.catalogAgeMs answers idle id args world).2,
    (view.statusFor answers idle id args world).2,
    (view.withCatalogObservations answers idle id args world).2,
    (view.invalidateStored answers idle id args world).2]

theorem View.afterwards_asks (view : View) (answers : Answers Args Facts Answer)
    (idle : ℕ → Bool) (id : JsString) (args : Args) (world : World) :
    ∀ later ∈ view.afterwards answers idle id args world, view.Asks world later := by
  simp only [afterwards, List.forall_mem_cons, List.not_mem_nil, false_imp_iff,
    implies_true, and_true]
  exact ⟨view.getTools_asks answers idle id args world,
    view.peekCatalog_asks answers idle id args world,
    view.forward_asks answers idle _ _ _ id args world,
    view.forward_asks answers idle _ _ _ id args world,
    view.forward_asks answers idle _ _ _ id args world,
    view.forward_asks answers idle _ _ _ id args world,
    view.forward_asks answers idle _ _ _ id args world,
    view.forward_asks answers idle _ _ _ id args world,
    view.forward_asks answers idle _ _ _ id args world,
    view.forward_asks answers idle _ _ _ id args world,
    view.forward_asks answers idle _ _ _ id args world⟩

/-- Tools, connectors, resources and skills a view gives out are granted. -/
structure ExposesGrants (answers : Answers Args Facts Answer) (value : Json)
    (view : View) : Prop where
  tools : ∀ idle id args world tool,
    tool ∈ View.returned (view.getTools answers idle id args world).1 ↔
      view.Underlying idle id world (fun delegate => View.returned
        (answers.getTools delegate id args view.scope.asker)) tool ∧
          GrantsTool value id tool.name
  peeked : ∀ idle id args world tool,
    tool ∈ View.peeked (view.peekCatalog answers idle id args world).1 ↔
      view.Underlying idle id world (fun delegate => View.peeked
        (answers.peekCatalog delegate id args view.scope.asker)) tool ∧
          GrantsTool value id tool.name
  asked : ∀ idle id args world,
    ∀ later ∈ view.afterwards answers idle id args world, ∃ asked,
      later.acts = world.acts ++ asked ∧ ∀ act ∈ asked,
        Names value act.id ∧ Present world.root view.scope act.id
  listed : ∀ idle world connectors later,
    view.listConnectors idle world = (.ok connectors, later) →
      ∀ connector ∈ connectors, Names value connector.id ∧
        Present world.root view.scope connector.id
  resolved : ∀ idle address world connector toolName later,
    view.resolveAddress idle address world =
        (.ok (some (connector, toolName)), later) →
      Names value connector.id ∧ Present world.root view.scope connector.id
  resources : ∀ idle id world connector later,
    view.getResourceConnector idle id world = (.ok (some connector), later) →
      Lists value id ∧ Present world.root view.scope id
  skills : ∀ idle id world later,
    view.canReadConnectorSkills idle id world = (.ok true, later) →
      Lists value id ∧ Present world.root view.scope id

/-- The views answer every method alike. -/
structure SameMeaning (answers : Answers Args Facts Answer) (left right : View) :
    Prop where
  tools : ∀ idle id args world, (left.getTools answers idle id args world).1 =
    (right.getTools answers idle id args world).1
  peeked : left.peekCatalog answers = right.peekCatalog answers
  forwarded : left.forward answers = right.forward answers
  listed : left.listConnectors = right.listConnectors
  resolved : left.resolveAddress = right.resolveAddress
  resources : left.getResourceConnector = right.getResourceConnector
  skills : left.canReadConnectorSkills = right.canReadConnectorSkills

/-- Every tool of the one view is a tool of the other. -/
structure Widens (answers : Answers Args Facts Answer) (left right : View) :
    Prop where
  tools : ∀ idle id args world,
    ∀ tool ∈ View.returned (left.getTools answers idle id args world).1,
      tool ∈ View.returned (right.getTools answers idle id args world).1
  peeked : ∀ idle id args world,
    ∀ tool ∈ View.peeked (left.peekCatalog answers idle id args world).1,
      tool ∈ View.peeked (right.peekCatalog answers idle id args world).1

section Claims

variable {idle : ℕ → Bool} {value other : Json} {asker : Asker} {start : World}
variable {view right : View} (answers : Answers Args Facts Answer)

theorem Built.exposes (hbuilt : Built idle value asker start view) :
    ExposesGrants answers value view where
  tools _ _ _ _ _ := View.mem_getTools.trans hbuilt.shows
  peeked _ _ _ _ _ := View.mem_peekCatalog.trans hbuilt.shows
  asked now id args world later hlater := by
    obtain ⟨asked, hacts, hasked⟩ :=
      view.afterwards_asks answers now id args world later hlater
    exact ⟨asked, hacts, fun act hact => hbuilt.names (hasked act hact)⟩
  listed _ _ _ _ hlisted connector hconnector :=
    hbuilt.names (View.keepServed_admits hlisted connector hconnector)
  resolved now address world connector toolName later hresolved := by
    rw [View.resolveAddress] at hresolved
    split at hresolved
    · cases hresolved
    · split at hresolved
      · rename_i found _ hfound
        rw [Prod.mk.injEq, Except.ok.injEq] at hresolved
        obtain ⟨served, rfl, hpair⟩ := Option.map_eq_some_iff.mp hresolved.1
        obtain ⟨rfl, -⟩ := Prod.mk.inj hpair
        obtain ⟨hadmits, hid, -⟩ := View.getConnector_admits hfound
        rw [hid]
        exact hbuilt.names hadmits
      · cases hresolved
  resources now id world connector later hfound := by
    rw [View.getResourceConnector] at hfound
    split_ifs at hfound with hgranted
    · cases hfound
    · obtain ⟨hadmits, -, -⟩ := View.getConnector_admits hfound
      obtain ⟨hnames, hpresent⟩ := hbuilt.names hadmits
      obtain ⟨-, hwhole, -⟩ := @Built.means Unit _ _ _ _ _ hbuilt id hadmits.valid
      rw [Bool.not_eq_true, Option.isSome_eq_false_iff, Option.isNone_iff_eq_none]
        at hgranted
      exact ⟨(hwhole hnames).mp hgranted, hpresent⟩
  skills now id world later hskills := by
    rw [View.canReadConnectorSkills] at hskills
    split at hskills
    · rename_i served _ hserved
      rw [Prod.mk.injEq, Except.ok.injEq, Bool.and_eq_true,
        Option.isNone_iff_eq_none, Option.isSome_iff_exists] at hskills
      obtain ⟨⟨⟨delegate, rfl⟩, hgranted⟩, -⟩ := hskills
      have hadmits := View.registryFor_admits hserved
      obtain ⟨hnames, hpresent⟩ := hbuilt.names hadmits
      obtain ⟨-, hwhole, -⟩ := @Built.means Unit _ _ _ _ _ hbuilt id hadmits.valid
      exact ⟨(hwhole hnames).mp hgranted, hpresent⟩
    · cases hskills

theorem Built.asker_eq (hbuilt : Built idle value asker start view) :
    view.scope.asker = asker := by
  obtain ⟨access, later, -, hview⟩ := hbuilt
  obtain ⟨-, hscope, -⟩ := scopedView_fields rfl hview
  rw [hscope]
  rfl

/-- A connector either is not served or is granted alike by both lists. -/
theorem Built.aligned (hbuilt : Built idle value asker start view)
    (hright : Built idle other asker start right)
    (hentries : ∀ address, Lists value address ↔ Lists other address)
    (id : JsString) (world : World) :
    (∀ now admission, right.registryFor now admission id world = (.ok none, world)) ∨
      ((view.scope.granted id).isSome = (right.scope.granted id).isSome ∧
        ∀ tool : ToolDef Facts, view.visible id tool = right.visible id tool) := by
  cases hconnector : world.root.connectors.get? id with
  | none =>
      refine .inl fun now admission => ?_
      rw [View.registryFor, View.connectorRegistry, hconnector, ite_self]
  | some connector =>
      have hid := (world.root.keyed _ (OrderedMap.get?_eq_some_iff.mp hconnector)).2
      by_cases hallowed : id ∈ right.allowed
      · have hsame := (hbuilt.allowed_mono hright (fun address =>
          (hentries address).mp) hid)
        have hback := hright.allowed_mono hbuilt (fun address =>
          (hentries address).mpr) hid hallowed
        obtain ⟨hnamed, hwhole, hgrants⟩ := @Built.means Facts _ _ _ _ _ hbuilt id hid
        obtain ⟨hnamed', hwhole', hgrants'⟩ := @Built.means Facts _ _ _ _ _ hright id hid
        have hnames := hnamed.mp hback
        have hnames' := hnamed'.mp hallowed
        refine .inr ⟨?_, fun tool => ?_⟩
        · rw [Bool.eq_iff_iff, ← not_iff_not, Bool.not_eq_true,
            Option.isSome_eq_false_iff, Option.isNone_iff_eq_none, hwhole hnames,
            hentries, ← hwhole' hnames', Bool.not_eq_true,
            Option.isSome_eq_false_iff, Option.isNone_iff_eq_none]
        · rw [Bool.eq_iff_iff, hgrants hnames, hgrants' hnames', GrantsTool,
            GrantsTool, hentries, hentries]
      · refine .inl fun now admission => ?_
        rw [View.registryFor, if_neg hallowed]

/-- A listing is what the registry lists, less what is not visible. -/
theorem getTools_fst (view : View) (answers : Answers Args Facts Answer)
    (now : ℕ → Bool) (id : JsString) (args : Args) (world : World) :
    (view.getTools answers now id args world).1 =
      match (view.registryFor now false id world).1 with
      | .error message => .error message
      | .ok none => .error (unknownConnector id)
      | .ok (some delegate) =>
          (answers.getTools delegate id args view.scope.asker).map
            (·.filter (view.visible id)) := by
  rw [View.getTools]
  rcases view.registryFor now false id world with ⟨_ | _ | delegate, later⟩
  · rfl
  · rfl
  · have hvisible : view.visible id = fun tool : ToolDef Facts =>
        match view.scope.granted id with
        | none => true
        | some granted => granted.contains tool.name := rfl
    dsimp only
    rw [hvisible]
    cases answers.getTools delegate id args view.scope.asker with
    | error message => rfl
    | ok tools =>
        cases view.scope.granted id with
        | none => simp [Except.map]
        | some granted => rfl

theorem peekCatalog_eq (view : View) (answers : Answers Args Facts Answer)
    (now : ℕ → Bool) (id : JsString) (args : Args) (world : World) :
    view.peekCatalog answers now id args world =
      match view.registryFor now false id world with
      | (.error message, later) => (.error message, later)
      | (.ok none, later) => (.ok none, later)
      | (.ok (some delegate), later) =>
          ((answers.peekCatalog delegate id args view.scope.asker).map
            (·.map fun peek => { peek with
              tools := peek.tools.filter (view.visible id) }),
            later.act delegate .peekCatalog id) := by
  rw [View.peekCatalog]
  rcases view.registryFor now false id world with ⟨_ | _ | delegate, later⟩
  · rfl
  · rfl
  · have hvisible : view.visible id = fun tool : ToolDef Facts =>
        match view.scope.granted id with
        | none => true
        | some granted => granted.contains tool.name := rfl
    dsimp only
    rw [hvisible]
    rcases answers.peekCatalog delegate id args view.scope.asker with _ | _ | peek
    · rfl
    · rfl
    · cases view.scope.granted id with
      | none => simp [Except.map]
      | some granted => rfl

theorem Built.sameMeaning (hbuilt : Built idle value asker start view)
    (hright : Built idle other asker start right)
    (hentries : ∀ address, Lists value address ↔ Lists other address) :
    SameMeaning answers view right := by
  have hregistry := hbuilt.registryFor_eq hright hentries
  have hasker : view.scope.asker = right.scope.asker :=
    hbuilt.asker_eq.trans hright.asker_eq.symm
  have hconnector : view.getConnector = right.getConnector := by
    funext now id world
    rw [View.getConnector, View.getConnector, hregistry]
  have hserved : view.keepServed = right.keepServed := by
    funext now connectors
    induction connectors with
    | nil => rfl
    | cons first rest ih =>
        funext world
        rw [View.keepServed, View.keepServed, hregistry, ih]
  refine ⟨fun now id args world => ?_, ?_, ?_, ?_, ?_, ?_, ?_⟩
  · rw [getTools_fst, getTools_fst, hregistry, hasker]
    rcases @Built.aligned Facts _ _ _ _ _ _ _ hbuilt hright hentries id world with
      hnone | ⟨-, hvisible⟩
    · rw [hnone]
    · rw [funext hvisible]
  · funext now id args world
    rw [peekCatalog_eq, peekCatalog_eq, hregistry, hasker]
    rcases @Built.aligned Facts _ _ _ _ _ _ _ hbuilt hright hentries id world with
      hnone | ⟨-, hvisible⟩
    · rw [hnone]
    · rw [funext hvisible]
  · funext now operation admission missing id args world
    rw [View.forward, View.forward, hregistry, hasker]
  · funext now world
    rw [View.listConnectors, View.listConnectors, hserved]
  · funext now address world
    rw [View.resolveAddress, View.resolveAddress, hconnector]
  · funext now id world
    rw [View.getResourceConnector, View.getResourceConnector, hconnector]
    rcases @Built.aligned Facts _ _ _ _ _ _ _ hbuilt hright hentries id world with
      hnone | ⟨hsome, -⟩
    · have habsent : right.getConnector now id world = (.ok none, world) := by
        rw [View.getConnector, hnone]
        rfl
      split_ifs <;> first | rfl | exact habsent | exact habsent.symm
    · rw [hsome]
  · funext now id world
    rw [View.canReadConnectorSkills, View.canReadConnectorSkills, hregistry]
    rcases @Built.aligned Facts _ _ _ _ _ _ _ hbuilt hright hentries id world with
      hnone | ⟨hsome, -⟩
    · rw [hnone]
      rfl
    · rw [← Option.not_isSome, ← Option.not_isSome, hsome]

theorem Built.widens (hbuilt : Built idle value asker start view)
    (hright : Built idle other asker start right)
    (hentries : ∀ address, Lists value address → Lists other address) :
    Widens answers view right := by
  have hconnector := hbuilt.connectorRegistry_eq hright
  have hasker : view.scope.asker = right.scope.asker :=
    hbuilt.asker_eq.trans hright.asker_eq.symm
  have hgrants : ∀ {id toolName}, GrantsTool value id toolName →
      GrantsTool other id toolName := Or.imp (hentries _) (hentries _)
  constructor
  · intro now id args world tool htool
    rw [(hbuilt.exposes answers).tools] at htool
    rw [(hright.exposes answers).tools, View.Underlying, ← hconnector, ← hasker]
    exact htool.imp_right hgrants
  · intro now id args world tool htool
    rw [(hbuilt.exposes answers).peeked] at htool
    rw [(hright.exposes answers).peeked, View.Underlying, ← hconnector, ← hasker]
    exact htool.imp_right hgrants

/-- A scoped view exposes exactly its grants, the meaning of a permission list
depends on its entries alone, and further entries never remove a tool. -/
theorem view_exposes_grants (hbuilt : Built idle value asker start view) :
    ExposesGrants answers value view ∧
      ∀ other right, Built idle other asker start right →
        ((∀ address, Lists value address ↔ Lists other address) →
          SameMeaning answers view right) ∧
        ((∀ address, Lists value address → Lists other address) →
          Widens answers view right) :=
  ⟨hbuilt.exposes answers, fun _ _ hright =>
    ⟨hbuilt.sameMeaning answers hright, hbuilt.widens answers hright⟩⟩

end Claims

/-! ## A list with a whole connector and one tool of another -/

def mailbox : JsString := JsString.ofAscii "mail"

def calendar : JsString := JsString.ofAscii "calendar"

def exampleRoot : Root where
  connectors := ⟨[(mailbox, ⟨mailbox, false, none⟩),
    (calendar, ⟨calendar, true, some .mapping⟩)], by decide⟩
  keyed := by decide

/-- The bare id of the one, beside a tool of each. -/
def exampleList : Json :=
  .array [.string (addressOf calendar (JsString.ofAscii "list")), .string mailbox,
    .string (addressOf mailbox (JsString.ofAscii "send"))]

def exampleAsker : Asker := ⟨some (JsString.ofAscii "alice"), none⟩

def exampleAnswers : Answers Unit Unit Unit where
  getTools _ _ _ _ := .ok [⟨JsString.ofAscii "list", ()⟩, ⟨JsString.ofAscii "send", ()⟩]
  peekCatalog _ _ _ _ := .ok none
  other _ _ _ _ _ := .ok ()

theorem view_exposes_grants_calendar : ∃ view,
    Built (fun _ => true) exampleList exampleAsker { root := exampleRoot } view ∧
      ExposesGrants exampleAnswers exampleList view ∧
      View.returned (view.getTools exampleAnswers (fun _ => true) calendar ()
        { root := exampleRoot }).1 = [⟨JsString.ofAscii "list", ()⟩] := by
  have hbuilt : ∃ view, Built (fun _ => true) exampleList exampleAsker
      { root := exampleRoot } view ∧
        View.returned (view.getTools exampleAnswers (fun _ => true) calendar ()
          { root := exampleRoot }).1 = [⟨JsString.ofAscii "list", ()⟩] :=
    ⟨_, ⟨_, _, rfl, rfl⟩, rfl⟩
  obtain ⟨view, hview, htools⟩ := hbuilt
  exact ⟨view, hview, (view_exposes_grants exampleAnswers hview).1, htools⟩

end Connecta.Registry
