import Connecta.Inputs.Continuations

/-!
# Suspending and presenting

What `finish` seals passes every check `verify` makes of a state by itself, and
an answer is filed under the key whose place its wire key names.
-/

namespace Connecta.Inputs

open Connecta.Runtime
open Connecta.Foundation (OrderedMap)

/-! ## The history of private states -/

theorem length_distinct_le (values : List JsString) :
    (distinct values).length ≤ values.length := by
  induction values with
  | nil => exact le_rfl
  | cons first rest ih =>
      rw [distinct, List.length_cons, List.length_cons]
      have hfilter := List.length_filter_le (· ≠ first) (distinct rest)
      omega

/-- A round remembers fewer states than there were rounds. -/
theorem length_previousStates_lt {previous : Option Previous}
    (requestState : Option JsString)
    (hprevious : ∀ round ∈ previous, round.previousStates.length +
      round.requestState.toList.length ≤ round.round) :
    (previousStates previous requestState).length <
      (previous.map Previous.round).getD 0 + 1 := by
  cases previous with
  | none => exact Nat.zero_lt_one
  | some round =>
      have hlength := hprevious round rfl
      have hdistinct := length_distinct_le
        (round.previousStates ++ round.requestState.toList)
      have hfilter := List.length_filter_le
        (fun value => decide (some value ≠ requestState))
        (distinct (round.previousStates ++ round.requestState.toList))
      rw [List.length_append] at hdistinct
      simp only [previousStates, Option.map_some, Option.getD_some]
      omega

/-! ## What the downstream asked -/

/-- How a downstream request is to be answered. -/
def requestMode : Json → Option InputMode
  | .object members =>
      match members.lookup (.ofAscii "params") with
      | some (.object params) => modeOf params
      | _ => none
  | _ => none

/-- The bindings stand for the entries, place by place. -/
structure Stands (connector : JsString) (entries : List (JsString × Json))
    (index : ℕ) (inputs : InputBindings) : Prop where
  keys : inputs.map (fun input => input.2.key) = entries.map Prod.fst
  valid : validInputs connector index inputs = true
  each : ∀ place key request, entries[place]? = some (key, request) →
    ∃ mode, requestMode request = some mode ∧
      inputs[place]? = some (namespaceOf connector (index + place), ⟨key, mode⟩)

theorem captureRequest_ok {screens : Screens} {elicitation : Elicitation}
    {connector key : JsString} {request : Json} {mode : InputMode}
    {relayed : InputRequest}
    (hcapture : captureRequest screens elicitation connector key request =
      .ok (mode, relayed)) :
    key ≠ [] ∧ key.length ≤ 256 ∧ requestMode request = some mode := by
  cases request with
  | object members =>
      simp only [captureRequest] at hcapture
      split at hcapture
      · cases hcapture
      rename_i hkey
      rw [not_or, not_lt] at hkey
      refine ⟨hkey.1, hkey.2, ?_⟩
      split at hcapture
      · split at hcapture
        · cases hcapture
        split at hcapture
        · rename_i params hparams
          simp only [requestMode, hparams]
          split at hcapture
          · cases hcapture
          rename_i asked hmode
          rw [hmode]
          split at hcapture
          · cases hcapture
          cases asked with
          | url =>
              simp only at hcapture
              split at hcapture
              · split at hcapture
                · cases hcapture
                  rfl
                · cases hcapture
              · cases hcapture
          | form =>
              simp only at hcapture
              split at hcapture
              · cases hcapture
              · split at hcapture
                · cases hcapture
                · cases hcapture
                  rfl
        · cases hcapture
      · cases hcapture
  | null => cases hcapture
  | bool value => cases hcapture
  | number lexeme => cases hcapture
  | string text => cases hcapture
  | array elements => cases hcapture

theorem captureEntries_ok {screens : Screens} {elicitation : Elicitation}
    {connector : JsString} {entries : List (JsString × Json)} {index : ℕ}
    {inputRequests : List (JsString × InputRequest)} {inputs : InputBindings}
    (hcapture : captureEntries screens elicitation connector index entries =
      .ok (inputRequests, inputs)) : Stands connector entries index inputs := by
  induction entries generalizing index inputRequests inputs with
  | nil =>
      cases hcapture
      exact ⟨rfl, rfl, nofun⟩
  | cons entry rest ih =>
      obtain ⟨key, request⟩ := entry
      rw [captureEntries] at hcapture
      split at hcapture
      · cases hcapture
      rename_i mode relayed hrequest
      split at hcapture
      · cases hcapture
      rename_i laterRequests laterInputs hrest
      cases hcapture
      obtain ⟨hne, hlength, hmode⟩ := captureRequest_ok hrequest
      have hstands := ih hrest
      constructor
      case keys => rw [List.map_cons, List.map_cons, hstands.keys]
      case valid =>
        simp only [validInputs, hstands.valid, decide_true, Bool.true_and,
          Bool.and_true, Bool.and_eq_true, decide_eq_true_eq]
        exact ⟨hne, hlength⟩
      case each =>
        intro place asked asking hplace
        cases place with
        | zero =>
            cases hplace
            exact ⟨mode, hmode, rfl⟩
        | succ place =>
            obtain ⟨later, hlater, hinput⟩ := hstands.each place asked asking hplace
            refine ⟨later, hlater, ?_⟩
            rw [List.getElem?_cons_succ, hinput, Nat.add_assoc, Nat.add_comm 1]

/-- What a capture leaves pending. -/
structure Captured (connector address : JsString) (raw : Json) (write : Bool)
    (pending : PendingInput) : Prop where
  source : pending.connector = connector
  address : pending.address = address
  write : pending.write = write
  short : pending.inputs.length ≤ MAX_REQUESTS
  stands : ∃ members entries, raw = .object members ∧
    requestEntries members = some entries ∧
    rawState members = some pending.requestState ∧
    Stands connector entries 0 pending.inputs

theorem captureDownstreamInput_ok {screens : Screens} {elicitation : Elicitation}
    {connector address : JsString} {raw : Json} {write captured : Bool}
    {pending : PendingInput}
    (hcapture : captureDownstreamInput screens elicitation connector address raw
      write captured = .ok pending) :
    Captured connector address raw write pending := by
  simp only [captureDownstreamInput] at hcapture
  split at hcapture
  · cases hcapture
  cases raw with
  | object members =>
      simp only at hcapture
      split at hcapture
      · rename_i requestState entries hstate hentries
        split at hcapture
        · cases hcapture
        split at hcapture
        · cases hcapture
        rename_i hshort
        rw [not_lt] at hshort
        split at hcapture
        · cases hcapture
        rename_i inputRequests inputs hrequests
        split at hcapture
        · cases hcapture
        split at hcapture
        · cases hcapture
        cases hcapture
        have hstands := captureEntries_ok hrequests
        refine ⟨rfl, rfl, rfl, ?_, members, entries, rfl, hentries, hstate,
          hstands⟩
        have hlength := congrArg List.length hstands.keys
        rw [List.length_map, List.length_map] at hlength
        exact hlength.trans_le hshort
      · cases hcapture
  | null => cases hcapture
  | bool value => cases hcapture
  | number lexeme => cases hcapture
  | string text => cases hcapture
  | array elements => cases hcapture

/-! ## What is sealed -/

/-- A sealed state names the call it suspends. -/
structure MintedFor (sha256Hex : JsString → JsString) (request : Request)
    (state : DownstreamRequestState) : Prop where
  principal : request.options.principal = some state.principal
  known : state.principal ≠ []
  endpoint : state.endpoint = request.options.endpoint
  pool : state.pool = request.options.pool
  address : state.address = stringOf (request.args.lookup (.ofAscii "address"))
  tool : state.tool = request.tool
  wireTool : state.wireTool = request.context.mcpName.getD request.tool
  digest : state.digest = requestDigest sha256Hex request.tool request.args

/-- What a pending input is sealed as. -/
structure Sealing (sha256Hex : JsString → JsString) (request : Request)
    (previous : Option Previous) (pending : PendingInput) (now : ℕ)
    (nonce : JsString) (state : DownstreamRequestState) : Prop where
  minted : MintedFor sha256Hex request state
  version : state.version = 2
  kind : state.kind = .ofAscii "downstream"
  connector : state.connector = pending.connector
  target : state.target = pending.address
  callTool : CALL_TOOLS.contains request.tool = true
  round : state.round = (previous.map Previous.round).getD 0 + 1
  early : (previous.map Previous.round).getD 0 < MAX_INPUT_ROUNDS
  expiresAt : state.expiresAt =
    (previous.map Previous.expiresAt).getD (now + REQUEST_STATE_TTL_MS)
  nonce : state.nonce = nonce
  requestState : state.requestState = pending.requestState
  states : state.previousStates = previousStates previous pending.requestState
  budget : withinBudget (privateStates state.previousStates
    state.requestState) = true
  inputs : state.inputs = pending.inputs

theorem finish_ok {sha256Hex : JsString → JsString} {request : Request}
    {previous : Option Previous} {pending : PendingInput} {now : ℕ}
    {nonce : JsString} {state : DownstreamRequestState}
    (hfinish : finish sha256Hex request previous pending now nonce =
      .ok state) :
    Sealing sha256Hex request previous pending now nonce state := by
  simp only [finish] at hfinish
  split at hfinish
  · cases hfinish
  rename_i principal hprincipal
  split at hfinish
  · cases hfinish
  rename_i hsupported
  simp only [Bool.or_eq_true, Bool.not_eq_true', decide_eq_true_eq, not_or,
    Bool.not_eq_false] at hsupported
  split at hfinish
  · cases hfinish
  rename_i hearly
  split at hfinish
  · cases hfinish
  rename_i hbudget
  cases hfinish
  have hminted : MintedFor sha256Hex request
      { version := 2, kind := .ofAscii "downstream", principal
        endpoint := request.options.endpoint, pool := request.options.pool
        connector := pending.connector
        address := stringOf (request.args.lookup (.ofAscii "address"))
        target := pending.address, tool := request.tool
        wireTool := request.context.mcpName.getD request.tool
        digest := requestDigest sha256Hex request.tool request.args
        round := (previous.map Previous.round).getD 0 + 1
        expiresAt := (previous.map Previous.expiresAt).getD
          (now + REQUEST_STATE_TTL_MS)
        nonce, requestState := pending.requestState
        previousStates := previousStates previous pending.requestState
        inputs := pending.inputs } :=
    ⟨hprincipal, hsupported.1.2, rfl, rfl, rfl, rfl, rfl, rfl⟩
  exact ⟨hminted, rfl, rfl, rfl, rfl, hsupported.2, rfl, not_le.mp hearly, rfl,
    rfl, rfl, rfl, by simpa using hbudget, rfl⟩

/-- What is sealed passes the checks of a state by itself. -/
theorem Sealing.wellFormed {sha256Hex : JsString → JsString} {request : Request}
    {previous : Option Previous} {pending : PendingInput} {now : ℕ}
    {nonce tool : JsString} {raw : Json} {write : Bool}
    {state : DownstreamRequestState}
    (hsealing : Sealing sha256Hex request previous pending now nonce state)
    (hcaptured : Captured pending.connector (pending.connector ++
      .ofAscii "." ++ tool) raw write pending)
    (hdigest : ∀ text, hexDigest (sha256Hex text) = true)
    (hnonce : uuid nonce = true) (hexpires : state.expiresAt ≤ MAX_SAFE_INTEGER)
    (hprevious : ∀ round ∈ previous, round.previousStates.length +
      round.requestState.toList.length ≤ round.round) :
    wellFormed state = true := by
  obtain ⟨members, entries, -, -, -, hstands⟩ := hcaptured.stands
  have htarget : targets state.connector state.target = true := by
    rw [hsealing.connector, hsealing.target, hcaptured.address, targets,
      List.isPrefixOf_iff_prefix]
    exact List.prefix_append _ _
  have hround : state.previousStates.length < state.round := by
    rw [hsealing.states, hsealing.round]
    exact length_previousStates_lt pending.requestState hprevious
  have hlast : state.round ≤ MAX_INPUT_ROUNDS := by
    rw [hsealing.round]
    exact hsealing.early
  have hhex : hexDigest state.digest = true := by
    rw [hsealing.minted.digest]
    exact hdigest _
  have htool : CALL_TOOLS.contains state.tool = true := by
    rw [hsealing.minted.tool]
    exact hsealing.callTool
  have huuid : uuid state.nonce = true := by
    rw [hsealing.nonce]
    exact hnonce
  have hinputs : validInputs state.connector 0 state.inputs = true := by
    rw [hsealing.connector, hsealing.inputs]
    exact hstands.valid
  have hshort : state.inputs.length ≤ MAX_REQUESTS := by
    rw [hsealing.inputs]
    exact hcaptured.short
  simp only [Inputs.wellFormed, hsealing.version, hsealing.kind, htarget, htool,
    hhex, hexpires, hlast, huuid, hround, hsealing.budget, hinputs, hshort,
    decide_true, Bool.and_true, Bool.true_and, decide_eq_true_eq]
  omega

/-! ## What is accepted -/

/-- A request that presents a state under the binding it was minted for. -/
structure Presents (request : Request) (wrapper : Wrapper) (blob : JsString)
    (state : DownstreamRequestState) : Prop where
  opens : request.options.vault.opens = true
  connector : wrapper.connector = some state.connector
  registered : request.options.getConnector state.connector = true
  sealed : wrapper.sealed = some blob
  short : blob.length ≤ MAX_RELAY_STATE_CHARS
  principal : request.options.principal = some state.principal
  known : state.principal ≠ []
  endpoint : state.endpoint = request.options.endpoint
  pool : state.pool = request.options.pool
  method : request.context.method = .ofAscii "tools/call"
  mcpName : request.context.mcpName = some state.wireTool

/-- A state is accepted exactly where it is presented under its binding, is
well formed and has not expired. -/
theorem verify_eq_some_iff
    {opened : JsString → JsString → Option DownstreamRequestState}
    {request : Request} {wrapper : Wrapper} {now : ℕ}
    {state : DownstreamRequestState} :
    verify opened request wrapper now = some state ↔
      ∃ blob, Presents request wrapper blob state ∧
        opened state.connector blob = some state ∧ wellFormed state = true ∧
        now < state.expiresAt ∧ state.expiresAt ≤ now + REQUEST_STATE_TTL_MS := by
  constructor
  · intro hverify
    simp only [verify] at hverify
    split at hverify
    · rename_i principal connector blob hprincipal hconnector hsealed
      split at hverify
      · cases hverify
      rename_i hasked
      simp only [Bool.or_eq_true, Bool.not_eq_true', decide_eq_true_eq, not_or,
        Bool.not_eq_false, not_lt] at hasked
      split at hverify
      · cases hverify
      rename_i found hopened
      split at hverify
      · rename_i hchecks
        cases hverify
        simp only [matchesRequest, Bool.and_eq_true, decide_eq_true_eq] at hchecks
        obtain ⟨⟨⟨⟨⟨⟨⟨⟨hsame, hendpoint⟩, hpool⟩, hheld⟩, hmethod⟩, hname⟩,
          hformed⟩, hfresh⟩, hwindow⟩ := hchecks
        rw [hprincipal, Option.some.injEq] at hsame
        subst hheld hsame
        exact ⟨blob, ⟨hasked.1.1.1, hconnector, hasked.1.2, hsealed, hasked.2,
          hprincipal, hasked.1.1.2, hendpoint, hpool, hmethod, hname⟩, hopened,
          hformed, hfresh, hwindow⟩
      · cases hverify
    · cases hverify
  · rintro ⟨blob, hpresents, hopened, hformed, hfresh, hwindow⟩
    have hshort : ¬MAX_RELAY_STATE_CHARS < blob.length :=
      not_lt.mpr hpresents.short
    simp only [verify, hpresents.principal, hpresents.connector, hpresents.sealed,
      hpresents.opens, hpresents.registered, hpresents.known, hshort, hopened,
      hformed, hfresh, hwindow, matchesRequest, ← hpresents.endpoint,
      ← hpresents.pool, hpresents.method, hpresents.mcpName, decide_true,
      decide_false, Bool.not_true, Bool.false_or, Bool.and_true,
      Bool.false_eq_true, if_false, if_true]

/-! ## Filing the answers -/

/-- What the downstream hears for one binding; nothing where the client left the
request unanswered. -/
def filed (elicitResult : Json → Option ElicitResult) (context : Context)
    (input : JsString × Binding) : Option Json :=
  (context.inputResponses input.1).bind fun response =>
    (elicitResult response).map (answerOf input.2.mode)

theorem collect_other {elicitResult : Json → Option ElicitResult}
    {context : Context} {inputs : InputBindings}
    {responses collected : OrderedMap JsString Json}
    (hcollect : collect elicitResult context inputs responses = .ok collected)
    {key : JsString} (hkey : key ∉ inputs.map fun input => input.2.key) :
    collected.get? key = responses.get? key := by
  induction inputs generalizing responses with
  | nil =>
      cases hcollect
      rfl
  | cons input rest ih =>
      obtain ⟨wireKey, binding⟩ := input
      rw [List.map_cons, List.mem_cons, not_or] at hkey
      rw [collect] at hcollect
      split at hcollect
      · cases hcollect
      split at hcollect
      · exact ih hcollect hkey.2
      · split at hcollect
        · cases hcollect
        · rw [ih hcollect hkey.2, OrderedMap.get?_set_of_ne _ _ hkey.1]

/-- Every answer is filed under the key of its binding. -/
theorem collect_filed {elicitResult : Json → Option ElicitResult}
    {context : Context} {inputs : InputBindings}
    {responses collected : OrderedMap JsString Json}
    (hcollect : collect elicitResult context inputs responses = .ok collected)
    (hkeys : (inputs.map fun input => input.2.key).Nodup)
    (hfresh : ∀ input ∈ inputs, responses.get? input.2.key = none)
    {input : JsString × Binding} (hinput : input ∈ inputs) :
    collected.get? input.2.key = filed elicitResult context input := by
  induction inputs generalizing responses with
  | nil => exact absurd hinput List.not_mem_nil
  | cons first rest ih =>
      obtain ⟨wireKey, binding⟩ := first
      rw [List.map_cons, List.nodup_cons] at hkeys
      rw [collect] at hcollect
      split at hcollect
      · cases hcollect
      split at hcollect
      · rename_i hanswer
        rcases List.mem_cons.mp hinput with rfl | hrest
        · rw [collect_other hcollect hkeys.1, hfresh _ List.mem_cons_self, filed,
            hanswer, Option.bind_none]
        · exact ih hcollect hkeys.2
            (fun other hother => hfresh other (List.mem_cons_of_mem _ hother)) hrest
      · rename_i response hanswer
        split at hcollect
        · cases hcollect
        rename_i parsed hparsed
        rcases List.mem_cons.mp hinput with rfl | hrest
        · rw [collect_other hcollect hkeys.1, OrderedMap.get?_set_self, filed,
            hanswer, Option.bind_some, hparsed, Option.map_some]
        · refine ih hcollect hkeys.2 (fun other hother => ?_) hrest
          rw [OrderedMap.get?_set_of_ne]
          · exact hfresh other (List.mem_cons_of_mem _ hother)
          · intro hsame
            exact hkeys.1 (hsame ▸ List.mem_map_of_mem hother)

/-- The request names the call the state suspends. -/
structure Names (sha256Hex : JsString → JsString) (request : Request)
    (state : DownstreamRequestState) : Prop where
  mcpName : request.context.mcpName = some state.wireTool
  tool : state.tool = request.tool
  address : request.args.lookup (.ofAscii "address") = some (.string state.address)
  digest : state.digest = requestDigest sha256Hex request.tool request.args

theorem sameCall_names {sha256Hex : JsString → JsString} {request : Request}
    {state : DownstreamRequestState}
    (hcall : sameCall sha256Hex request state = true) :
    Names sha256Hex request state := by
  simp only [sameCall, Bool.and_eq_true, decide_eq_true_eq] at hcall
  obtain ⟨⟨⟨hname, htool⟩, haddress⟩, hdigest⟩ := hcall
  refine ⟨hname.symm, htool, ?_, hdigest⟩
  split at haddress
  · rename_i address hlookup
    rw [hlookup, of_decide_eq_true haddress]
  · cases haddress

theorem resumeResponses_ok {sha256Hex : JsString → JsString}
    {elicitResult : Json → Option ElicitResult} {request : Request}
    {state : DownstreamRequestState} {responses : OrderedMap JsString Json}
    (hresume : resumeResponses sha256Hex elicitResult request state =
      .ok responses) :
    Names sha256Hex request state ∧
      collect elicitResult request.context state.inputs .empty = .ok responses := by
  simp only [resumeResponses] at hresume
  split at hresume
  · cases hresume
  rename_i hcall
  rw [Bool.not_eq_true', Bool.not_eq_false] at hcall
  split at hresume
  · cases hresume
  rename_i collected hcollect
  split at hresume
  · cases hresume
  cases hresume
  exact ⟨sameCall_names hcall, hcollect⟩

end Connecta.Inputs
