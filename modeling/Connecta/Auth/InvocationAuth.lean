import Connecta.Inputs.Continuations

/-!
# What a request remembers of its calls

Every call that reaches a connector is recorded with a private copy of the
definition it was classified by, and every authorization failure with whether the
call may be repeated.  A recovery is offered on these facts alone.
-/

namespace Connecta.Auth

open Connecta.Runtime
open Connecta.Foundation (OrderedMap)

/-! ## The classification of a tool -/

inductive Classification where
  | read
  | write
  deriving DecidableEq

def Classification.text : Classification → Json
  | .read => .string (.ofAscii "read")
  | .write => .string (.ofAscii "write")

inductive SourceFacts where
  | read
  | silent
  | declaredWrite
  deriving DecidableEq

structure ToolDef where
  classification : Option Classification
  annotations : List (JsString × Json)
  inputSchema : Option Json
  outputSchema : Option Json
  /-- The facts kept privately beside a definition the host copied. -/
  sourceFacts : Option SourceFacts

/-- `hint === true` -/
def isTrue : Option Json → Bool
  | some (.bool hint) => hint
  | _ => false

def sourceFactsOf (annotations : List (JsString × Json)) : SourceFacts :=
  let readOnly := annotations.lookup (.ofAscii "readOnlyHint")
  let destructive := annotations.lookup (.ofAscii "destructiveHint")
  if isTrue readOnly && !isTrue destructive then .read
  else if readOnly.isNone && !isTrue destructive then .silent
  else .declaredWrite

def factsFor (tool : ToolDef) : SourceFacts :=
  tool.sourceFacts.getD (sourceFactsOf tool.annotations)

def sourceClassification (tool : ToolDef) : Classification :=
  if factsFor tool = .read then .read else .write

/-- Anything but a served read of a source that says it reads. -/
def isWriteLike (tool : ToolDef) : Bool :=
  tool.classification ≠ some .read || sourceClassification tool = .write

/-- `structuredClone` keeps what a definition holds, and its source facts go with it. -/
def cloneTool (tool : ToolDef) : ToolDef :=
  { tool with sourceFacts := some (factsFor tool) }

/-- The text whose hash binds the verdict, the annotation facts and the schemas. -/
def classificationText (definition : ToolDef) : JsString :=
  let annotations := definition.annotations.mergeSort fun left right =>
    !decide (right.1 < left.1)
  let schema := (definition.inputSchema.map fun schema =>
      (JsString.ofAscii "inputSchema", schema)).toList ++
    (definition.outputSchema.map fun schema =>
      (JsString.ofAscii "outputSchema", schema)).toList
  (Json.object ((definition.classification.map fun classification =>
      (JsString.ofAscii "classification", classification.text)).toList ++
    [(.ofAscii "source", (sourceClassification definition).text),
      (.ofAscii "annotations", .array (annotations.map fun annotation =>
        .array [.string annotation.1, annotation.2])),
      (.ofAscii "schema", .object schema)])).stringify

variable (sha256 : List ℕ → Option JsString)

/-- Empty where the platform refuses to hash. -/
def classificationDigest (definition : ToolDef) : JsString :=
  (sha256 (classificationText definition).utf8).getD []

/-! ## The facts of a request -/

structure ReplayRead where
  address : JsString
  digest : JsString
  deriving DecidableEq

structure EnteredCall where
  address : JsString
  classification : Classification
  fresh : Bool
  definition : ToolDef

structure RequestInvocations where
  entered : List EnteredCall
  authFailures : OrderedMap JsString Bool
  retryReads : OrderedMap JsString JsString

def RequestInvocations.empty : RequestInvocations :=
  ⟨[], .empty, .empty⟩

/-- What the catalog resolved an address to. -/
structure Target where
  address : JsString
  definition : ToolDef
  classificationFresh : Bool

def recordCallEntry (request : RequestInvocations) (target : Target) : RequestInvocations :=
  let call : EnteredCall :=
    { address := target.address
      classification := if isWriteLike target.definition then .write else .read
      fresh := target.classificationFresh
      definition := cloneTool target.definition }
  { request with entered := request.entered ++ [call] }

/-- `new Map(entries)` -/
def mapOf {Value : Type} (entries : List (JsString × Value)) : OrderedMap JsString Value :=
  entries.foldl (fun map entry => map.set entry.1 entry.2) .empty

def bindReplayReads (request : RequestInvocations) (reads : List ReplayRead) :
    RequestInvocations :=
  { request with retryReads := mapOf (reads.map fun read => (read.address, read.digest)) }

/-- A read that was entered before the prompt is entered again only as the same
fresh read. -/
def replayRefuses (request : RequestInvocations) (target : Target) : Bool :=
  match request.retryReads.get? target.address with
  | none => false
  | some expected => isWriteLike target.definition || !target.classificationFresh ||
      classificationDigest sha256 target.definition ≠ expected

/-- Eligible as long as no failure of this connector was not. -/
def recordAuthFailure (request : RequestInvocations) (connector : JsString)
    (eligible : Bool) : RequestInvocations :=
  let failures := request.authFailures
  { request with
    authFailures := failures.set connector
      (eligible && failures.get? connector ≠ some false) }

/-- The authorization failure of a call: what it had resolved, whether its credentials
were refused before the connector was entered, and the tool it came by. -/
structure CallFailure where
  resolved : Option Target
  preInvocation : Bool
  direct : Bool

def CallFailure.eligible (failure : CallFailure) : Bool :=
  (failure.resolved.any fun target =>
    !isWriteLike target.definition && target.classificationFresh) ||
      failure.preInvocation || (failure.resolved.isNone && failure.direct)

structure RecoveryFacts where
  writeEntered : Bool
  unsafeEntered : Bool
  eligible : Bool
  reads : List ReplayRead

/-- One entered call: whether the calls so far are unsafe, and their digests. -/
def collectCall (found : Bool × OrderedMap JsString JsString) (call : EnteredCall) :
    Bool × OrderedMap JsString JsString :=
  let digest := classificationDigest sha256 call.definition
  (found.1 || !call.fresh || digest = [] ||
      (found.2.get? call.address).any fun known => known ≠ digest,
    found.2.set call.address digest)

def authRecoveryFacts (request : RequestInvocations) (connector : JsString) : RecoveryFacts :=
  let writeEntered := request.entered.any fun call => call.classification = .write
  let found := request.entered.foldl (collectCall sha256) (writeEntered, .empty)
  { writeEntered
    unsafeEntered := found.1
    eligible := !found.1 && request.authFailures.get? connector = some true
    reads := found.2.entries.map fun entry => ⟨entry.1, entry.2⟩ }

/-! ## Safe facts -/

/-- Nothing but fresh reads was entered, and no address as two definitions. -/
structure Repeatable (entered : List EnteredCall) : Prop where
  reads : ∀ call ∈ entered, call.classification = .read
  fresh : ∀ call ∈ entered, call.fresh = true
  agree : ∀ call ∈ entered, ∀ other ∈ entered, call.address = other.address →
    classificationDigest sha256 call.definition = classificationDigest sha256 other.definition

/-- A map built from entries that agree on a key finds it. -/
theorem get?_foldl_set {Value : Type} {key : JsString} {value : Value}
    (entries : List (JsString × Value)) (map : OrderedMap JsString Value)
    (hagree : ∀ entry ∈ entries, entry.1 = key → entry.2 = value)
    (hthere : (key, value) ∈ entries ∨ map.get? key = some value) :
    (entries.foldl (fun map entry => map.set entry.1 entry.2) map).get? key =
      some value := by
  induction entries generalizing map with
  | nil => exact hthere.resolve_left List.not_mem_nil
  | cons first rest ih =>
      apply ih _ fun entry hentry => hagree entry (List.mem_cons_of_mem _ hentry)
      by_cases hfirst : first.1 = key
      · right
        show (map.set first.1 first.2).get? key = some value
        rw [hfirst, hagree first List.mem_cons_self hfirst, OrderedMap.get?_set_self]
      · show _ ∨ (map.set first.1 first.2).get? key = some value
        rw [OrderedMap.get?_set_of_ne _ _ (Ne.symm hfirst)]
        refine hthere.imp_left fun hmem => (List.mem_cons.mp hmem).resolve_left ?_
        rintro rfl
        exact hfirst rfl

theorem get?_mapOf {Value : Type} {key : JsString} {value : Value}
    {entries : List (JsString × Value)}
    (hagree : ∀ entry ∈ entries, entry.1 = key → entry.2 = value)
    (hthere : (key, value) ∈ entries) : (mapOf entries).get? key = some value :=
  get?_foldl_set entries .empty hagree (.inl hthere)

/-- A map built from entries holds nothing else. -/
theorem mem_foldl_set {Value : Type} {key : JsString} {value : Value}
    (entries : List (JsString × Value)) (map : OrderedMap JsString Value)
    (hget : (entries.foldl (fun map entry => map.set entry.1 entry.2) map).get? key =
      some value) : (key, value) ∈ entries ∨ map.get? key = some value := by
  induction entries generalizing map with
  | nil => exact .inr hget
  | cons first rest ih =>
      rcases ih (map.set first.1 first.2) hget with hrest | hfirst
      · exact .inl (List.mem_cons_of_mem _ hrest)
      · rw [OrderedMap.get?_set] at hfirst
        split_ifs at hfirst with hkey
        · obtain rfl := Option.some.inj hfirst
          subst hkey
          exact .inl List.mem_cons_self
        · exact .inr hfirst

theorem mem_of_mem_mapOf {Value : Type} {entry : JsString × Value}
    {entries : List (JsString × Value)} (hentry : entry ∈ (mapOf entries).entries) :
    entry ∈ entries :=
  (mem_foldl_set entries .empty (OrderedMap.get?_eq_some_iff.mpr hentry)).resolve_right
    (by rw [OrderedMap.get?_empty]; nofun)

variable {sha256}

/-- Where the calls are safe, each is remembered under its digest. -/
theorem foldl_collectCall (calls : List EnteredCall)
    (found : Bool × OrderedMap JsString JsString)
    (hsafe : (calls.foldl (collectCall sha256) found).1 = false) :
    found.1 = false ∧
      (∀ address digest, found.2.get? address = some digest →
        (calls.foldl (collectCall sha256) found).2.get? address = some digest) ∧
      ∀ call ∈ calls, call.fresh = true ∧
        (calls.foldl (collectCall sha256) found).2.get? call.address =
          some (classificationDigest sha256 call.definition) := by
  induction calls generalizing found with
  | nil => exact ⟨hsafe, fun _ _ => id, fun _ hcall => absurd hcall List.not_mem_nil⟩
  | cons first rest ih =>
      obtain ⟨hfirst, hkept, hrest⟩ := ih (collectCall sha256 found first) hsafe
      simp only [collectCall, Bool.or_eq_false_iff, Bool.not_eq_false'] at hfirst
      obtain ⟨⟨⟨hfound, hfresh⟩, -⟩, hknown⟩ := hfirst
      refine ⟨hfound, fun address digest hget => hkept address digest ?_, ?_⟩
      · by_cases haddress : address = first.address
        · subst haddress
          rw [hget, Option.any_some, decide_eq_false_iff_not, not_not] at hknown
          rw [hknown]
          exact OrderedMap.get?_set_self ..
        · exact (OrderedMap.get?_set_of_ne _ _ haddress).trans hget
      · intro call hcall
        rcases List.mem_cons.mp hcall with rfl | hlater
        · exact ⟨hfresh, hkept _ _ (OrderedMap.get?_set_self ..)⟩
        · exact hrest call hlater

/-- What is remembered of the calls was the digest of one of them. -/
theorem collectCall_source (calls : List EnteredCall)
    (found : Bool × OrderedMap JsString JsString) {address digest : JsString}
    (hget : (calls.foldl (collectCall sha256) found).2.get? address = some digest) :
    found.2.get? address = some digest ∨ ∃ call ∈ calls, call.address = address ∧
      classificationDigest sha256 call.definition = digest := by
  induction calls generalizing found with
  | nil => exact .inl hget
  | cons first rest ih =>
      rcases ih (collectCall sha256 found first) hget with hfound | ⟨call, hcall, hrest⟩
      · rw [collectCall, OrderedMap.get?_set] at hfound
        split_ifs at hfound with haddress
        · exact .inr ⟨first, List.mem_cons_self, haddress.symm, Option.some.inj hfound⟩
        · exact .inl hfound
      · exact .inr ⟨call, List.mem_cons_of_mem _ hcall, hrest⟩

variable {request : RequestInvocations} {connector : JsString}

theorem not_unsafeEntered
    (heligible : (authRecoveryFacts sha256 request connector).eligible = true) :
    (authRecoveryFacts sha256 request connector).unsafeEntered = false := by
  simp only [authRecoveryFacts, Bool.and_eq_true, Bool.not_eq_true'] at heligible
  exact heligible.1

/-- Safe facts list every call that was entered. -/
theorem mem_reads
    (hsafe : (authRecoveryFacts sha256 request connector).unsafeEntered = false)
    {call : EnteredCall} (hcall : call ∈ request.entered) :
    ⟨call.address, classificationDigest sha256 call.definition⟩ ∈
      (authRecoveryFacts sha256 request connector).reads := by
  have hget := ((foldl_collectCall _ _ hsafe).2.2 call hcall).2
  exact List.mem_map.mpr ⟨_, OrderedMap.get?_eq_some_iff.mp hget, rfl⟩

theorem repeatable
    (hsafe : (authRecoveryFacts sha256 request connector).unsafeEntered = false) :
    Repeatable sha256 request.entered := by
  obtain ⟨hwrite, -, hcalls⟩ := foldl_collectCall _ _ hsafe
  refine ⟨fun call hcall => ?_, fun call hcall => (hcalls call hcall).1, ?_⟩
  · rw [List.any_eq_false] at hwrite
    have hread := hwrite call hcall
    cases hkind : call.classification with
    | read => rfl
    | write => exact absurd (decide_eq_true hkind) hread
  · intro call hcall other hother haddress
    have hfirst := (hcalls call hcall).2
    rw [haddress, (hcalls other hother).2] at hfirst
    exact (Option.some.inj hfirst).symm

/-- The facts list nothing but what was entered, an address once. -/
theorem reads_source {read : ReplayRead}
    (hread : read ∈ (authRecoveryFacts sha256 request connector).reads) :
    ∃ call ∈ request.entered, call.address = read.address ∧
      classificationDigest sha256 call.definition = read.digest := by
  obtain ⟨entry, hentry, rfl⟩ := List.mem_map.mp hread
  exact (collectCall_source _ _ (OrderedMap.get?_eq_some_iff.mpr hentry)).resolve_left
    (by rw [OrderedMap.get?_empty]; nofun)

theorem authRecoveryFacts_nodup :
    ((authRecoveryFacts sha256 request connector).reads.map ReplayRead.address).Nodup := by
  rw [authRecoveryFacts, List.map_map]
  exact (request.entered.foldl (collectCall sha256) (_, .empty)).2.nodup

end Connecta.Auth
