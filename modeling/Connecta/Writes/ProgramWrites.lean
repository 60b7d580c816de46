import Connecta.Foundation.OrderedMap
import Connecta.Foundation.Transition
import Connecta.Runtime.Decimal
import Connecta.Writes.ErrorText
import Connecta.Writes.Outcome

/-!
# The writes of one program

Every write a program sends is begun and completed once; a completion that comes
again is ignored.  A drain waits for the writes it sees and looks again.  The
result of a program that wrote is the given one, or an error that carries the
counts; an unknown write replaces whatever the program returned.
-/

namespace Connecta.WriteAccounts

open Connecta.ErrorText
open Connecta.Foundation (OrderedMap)
open Connecta.Runtime
open Connecta.Transition
open Connecta.Writes (WriteState)

/-! ## Objects -/

/-- A JavaScript object under construction. -/
abbrev Fields := OrderedMap JsString Json

def Fields.put (fields : Fields) (key : String) (value : Json) : Fields :=
  fields.set (JsString.ofAscii key) value

/-- A property that is spread in where there is one. -/
def Fields.spread (fields : Fields) (key : String) (value : Option Json) : Fields :=
  value.elim fields (fields.put key)

def Fields.field (fields : Fields) (key : String) : Option Json :=
  fields.get? (JsString.ofAscii key)

/-- `{ ...fields, ...members }` -/
def Fields.assign (fields : Fields) (members : List (JsString × Json)) : Fields :=
  members.foldl (fun fields member => fields.set member.1 member.2) fields

def text (value : String) : Json := .string (JsString.ofAscii value)

/-- The properties of a value of type `"object"`. -/
def properties : Json → Option (List (JsString × Json))
  | .object members => some members
  | .array elements => some (elements.zipIdx.map fun (element, index) =>
      (JsString.decimal index, element))
  | _ => none

structure ToolResult where
  /-- The text of each content block that has one. -/
  content : List (Option JsString)
  structuredContent : Option Fields
  isError : Bool

def toolError (error : Fields) : ToolResult :=
  let structuredContent := Fields.put .empty "error" (.object error.entries)
  { content := [some (Json.stringify (.object structuredContent.entries))]
    structuredContent := some structuredContent
    isError := true }

/-- `structuredContent.error`, where it is an object. -/
def ToolResult.error (result : ToolResult) : Option Fields :=
  ((result.structuredContent.bind fun content => content.field "error").bind properties).map
    (Fields.assign .empty)

/-! ## Completions -/

/-- What one write said, longer than any report holds. -/
structure UnknownWrite where
  address : Option JsString
  code : JsString
  toolAnswered : Bool
  text : JsString
  cut : Bool

structure WriteHandoff where
  code : JsString
  connector : JsString
  recovery : Option Json
  nextAction : Json
  retry : Option Json

inductive WriteCompletion where
  | state (state : WriteState)
  | unknown (failure : UnknownWrite) (uncertainCall deadline : Option Json)
      (handoff : Option WriteHandoff)

def WriteCompletion.writeState : WriteCompletion → WriteState
  | .state ended => ended
  | .unknown .. => .unknown

/-- The failure an unknown write came with. -/
def WriteCompletion.failure : WriteCompletion → Option UnknownWrite
  | .state .. => none
  | .unknown failure .. => some failure

def MAX_REPORTED_WRITES : ℕ := 10

def MAX_REPORT_BYTES : ℕ := 2 * MAX_TOOL_ERROR_BYTES

def RESULT_RESERVE : ℕ := 256

def CHECK_UNKNOWN_WRITE : String :=
  "Read its target to see whether it applied before anything depends on it."

def UNKNOWN_WRITE_ARGS : String :=
  "Echoed arguments may be partial or absent; " ++
    "use your original arguments for further calls."

def NO_PROGRAM_RERUN : String :=
  "Do not rerun this program: writes it already sent would repeat. " ++
    "If a tool's words call for a further call, send only that operation, as a new call."

structure ProgramWrites where
  closed : Bool := false
  inFlight : List ℕ := []
  states : List WriteState := []
  unknownWrites : List UnknownWrite := []
  unknownWritesTruncated : Bool := false
  uncertainCalls : List Json := []
  uncertainCallsTruncated : Bool := false
  deadlines : List Json := []
  handoff : Option WriteHandoff := none

namespace ProgramWrites

variable (writes : ProgramWrites)

def begin (settled : ℕ) : ProgramWrites :=
  { writes with inFlight := writes.inFlight ++ [settled] }

/-- What a completion leaves beside the state. -/
def note (completion : WriteCompletion) : ProgramWrites :=
  match completion with
  | .state _ => writes
  | .unknown failure uncertainCall deadline handoff =>
      let room := writes.unknownWrites.length < MAX_REPORTED_WRITES
      { writes with
        unknownWrites :=
          if room then writes.unknownWrites ++ [failure] else writes.unknownWrites
        unknownWritesTruncated := writes.unknownWritesTruncated || !room
        uncertainCalls := uncertainCall.elim writes.uncertainCalls fun call =>
          if writes.uncertainCalls.length < 10 then writes.uncertainCalls ++ [call]
          else writes.uncertainCalls
        uncertainCallsTruncated := uncertainCall.elim writes.uncertainCallsTruncated fun _ =>
          writes.uncertainCallsTruncated || !(writes.uncertainCalls.length < 10)
        deadlines := deadline.elim writes.deadlines fun deadline =>
          if writes.deadlines.length < 10 then writes.deadlines ++ [deadline]
          else writes.deadlines
        handoff := writes.handoff <|> handoff }

/-- The function `begin` returned, called for the first time. -/
def complete (settled : ℕ) (completion : WriteCompletion) : ProgramWrites :=
  let noted := writes.note completion
  { noted with
    states := noted.states ++ [completion.writeState]
    inFlight := noted.inFlight.erase settled }

/-! ## The report -/

/-- What of the sent secrets the report reads. -/
structure SentSecrets where
  redactText : JsString → JsString
  redactOpenTail : JsString → JsString

structure Entry where
  address : Option JsString
  code : JsString
  toolAnswered : Bool
  message : Option JsString

/-- The members of `facts`, and behind them the message. -/
def Entry.members (entry : Entry) : List (JsString × Json) :=
  let member (key : String) (value : Json) := (JsString.ofAscii key, value)
  (entry.address.map fun address => member "address" (.string address)).toList ++
    [member "code" (.string entry.code)] ++
    (if entry.toolAnswered then [member "toolAnswered" (.bool true)] else []) ++
    (entry.message.map fun message => member "message" (.string message)).toList

def Entry.json (entry : Entry) : Json := .object entry.members

def facts (write : UnknownWrite) : Entry :=
  { address := write.address, code := write.code, toolAnswered := write.toolAnswered
    message := none }

def Entry.say (entry : Entry) (message : Option JsString) : Entry :=
  { entry with message := message }

structure Report where
  entries : List Entry
  truncated : Bool

/-- The loop of `report`, over the writes that are left. -/
def reportFrom (secrets : SentSecrets) :
    List UnknownWrite → ℤ → Bool → List Entry → Report
  | [], _, truncated, entries => { entries := entries, truncated := truncated }
  | write :: rest, left, truncated, entries =>
      let left := left - (Json.bytes (facts write).json + 12)
      if left < 0 then { entries := entries, truncated := true }
      else
        let shown :=
          if write.cut then secrets.redactOpenTail write.text
          else secrets.redactText write.text
        let message := fitted shown (min left MAX_TOOL_ERROR_BYTES)
        reportFrom secrets rest
          (message.elim left fun message => left - Json.bytes (.string message))
          (truncated || message.isNone)
          (entries ++ [(facts write).say message])

def report (secrets : SentSecrets) (room : ℤ) : Report :=
  reportFrom secrets writes.unknownWrites room writes.unknownWritesTruncated []

/-! ## The result -/

structure WriteCounts where
  succeeded : ℕ
  failed : ℕ
  unknown : ℕ

def counts : WriteCounts where
  succeeded := writes.states.count .ok
  failed := writes.states.count .failed
  unknown := writes.states.count .unknown

def WriteCounts.json (counts : WriteCounts) : Json :=
  .object [(JsString.ofAscii "succeeded", .number (JsString.decimal counts.succeeded)),
    (JsString.ofAscii "failed", .number (JsString.decimal counts.failed)),
    (JsString.ofAscii "unknown", .number (JsString.decimal counts.unknown))]

/-- What an unknown outcome carries beside its message. -/
def unknownFacts : Fields :=
  let code := (writes.handoff.map WriteHandoff.code).getD
    (JsString.ofAscii "write_outcome_unknown")
  let facts := (Fields.put .empty "code" (.string code)).put "retryable" (.bool false)
  let facts := writes.handoff.elim facts fun handoff =>
    (((((facts.put "code" (.string handoff.code)).put "connector"
      (.string handoff.connector)).spread "recovery" handoff.recovery).put "nextAction"
      handoff.nextAction).spread "retry" handoff.retry).put "reconciliationRequired"
        (.bool true) |>.put "writeOutcome" (text "unknown")
  let facts := facts.spread "details" writes.deadlines.head?
  let facts := facts.spread "timeouts"
    (if 1 < writes.deadlines.length then some (.array writes.deadlines) else none)
  let facts := match writes.uncertainCalls with
    | [] => facts
    | [call] => facts.put "uncertainCall" call
    | calls => facts.put "uncertainCalls" (.array calls)
  let facts := facts.spread "uncertainCallsTruncated"
    (if writes.uncertainCallsTruncated then some (.bool true) else none)
  facts.put "writes" writes.counts.json

def advice : JsString :=
  JsString.ofAscii (if writes.handoff.isSome then
    "A write this program sent failed authorization after it left, so its outcome is " ++
      "unknown and the program's return was discarded. It will not be resent. " ++
      CHECK_UNKNOWN_WRITE ++ " Then give what nextAction returns to the operator to " ++
      "recover the connector. " ++ NO_PROGRAM_RERUN ++ " " ++ UNKNOWN_WRITE_ARGS
  else
    "A write this program sent has an unknown outcome, and the program's return was " ++
      "discarded. It will not be resent. " ++ CHECK_UNKNOWN_WRITE ++ " " ++
      NO_PROGRAM_RERUN ++ " " ++ UNKNOWN_WRITE_ARGS)

/-- The room of the report beside the rest of the error. -/
def reportRoom (maxResultChars : ℕ) : ℤ :=
  let error := writes.unknownFacts.put "message" (.string writes.advice)
  min MAX_REPORT_BYTES (maxResultChars - RESULT_RESERVE -
    Json.bytes (.object [(JsString.ofAscii "error", .object error.entries)]))

/-- The first tool's own words lead, taken from its entry. -/
def quote : List Entry → Option (Entry × JsString × List Entry)
  | [] => none
  | entry :: rest =>
      match entry.toolAnswered, entry.message with
      | true, some words => some (entry, words, entry.say none :: rest)
      | _, _ => (quote rest).map fun (quoted, words, rest) => (quoted, words, entry :: rest)

def unknownResult (secrets : SentSecrets) (maxResultChars : ℕ) : ToolResult :=
  let report := writes.report secrets (writes.reportRoom maxResultChars)
  let quoted := if writes.handoff.isSome then none else quote report.entries
  let entries := quoted.elim report.entries fun (_, _, rest) => rest
  let message := quoted.elim writes.advice fun (entry, words, _) =>
    entry.address.getD (JsString.ofAscii "A tool") ++ JsString.ofAscii " answered: " ++
      words ++ JsString.ofAscii "\n\nGive the user any approval link or request id above. " ++
      writes.advice
  let error := Fields.put .empty "message" (.string message)
  let error := error.spread "unknownWrites"
    (if entries = [] then none else some (.array (entries.map Entry.json)))
  let error := error.spread "unknownWritesTruncated"
    (if report.truncated then some (.bool true) else none)
  toolError (error.assign writes.unknownFacts.entries)

def LANDED : String :=
  "This run completed writes, counted in writes, and they are not undone. Running this " ++
    "program again would repeat them: check them, then send only what is left."

def ATTEMPTED : String :=
  "This run attempted writes, counted in writes, and none applied. Check them before " ++
    "running the task again."

/-- The error of a failure that carries the counts. -/
def annotated (result : ToolResult) (counts : WriteCounts) : Fields :=
  let retryAfterMs := result.error.bind fun error => error.field "retryAfterMs"
  let failure := result.error.elim
    (((Fields.put .empty "code" (text "executor_failed")).put "message"
      (.string ((result.content.head?.bind id).getD []))).put "retryable" (.bool false))
    fun error => error.delete (JsString.ofAscii "retryAfterMs")
  let landed := 0 < counts.succeeded
  let annotated := if landed then failure.put "retryable" (.bool false)
    else failure.spread "retryAfterMs" retryAfterMs
  (annotated.put "writes" counts.json).put "note" (text (if landed then LANDED else ATTEMPTED))

/-- `withWrites(result, writes)` -/
def withWrites (result : ToolResult) (counts : WriteCounts) : ToolResult :=
  let annotated := annotated result counts
  match result.structuredContent, result.error with
  | some structured, some _ =>
      let structured := Fields.put (structured.delete (JsString.ofAscii "error")) "error"
        (.object annotated.entries)
      { content := [some (Json.stringify (.object structured.entries))]
        structuredContent := some structured
        isError := true }
  | _, _ => toolError annotated

def finish (result : ToolResult) (secrets : SentSecrets) (maxResultChars : ℕ) : ToolResult :=
  if writes.states = [] then result
  else if 0 < writes.counts.unknown then writes.unknownResult secrets maxResultChars
  else if result.isError then withWrites result writes.counts
  else result

end ProgramWrites

/-! ## Runs -/

/-- A program's writes with what its callers hold: whether each write begun has
recorded its completion, and what each drain awaits. -/
structure Play where
  writes : ProgramWrites := {}
  recorded : List Bool := []
  drains : List (Option (List ℕ)) := []

inductive Event where
  | begin
  | complete (write : ℕ) (completion : WriteCompletion)
  | close
  | drain
  /-- The writes a drain awaits are all settled. -/
  | resume (drain : ℕ)
  | finish (result : ToolResult) (secrets : ProgramWrites.SentSecrets) (maxResultChars : ℕ)

inductive Output where
  | completed (write : ℕ) (completion : WriteCompletion)
  | drained (drain : ℕ)
  | finished (result : ToolResult)

namespace Play

variable (play : Play)

/-- The loop of `drain`: it returns where nothing is in flight. -/
def await (drain : ℕ) : Play × List Output :=
  if play.writes.inFlight = [] then
    ({ play with drains := play.drains.set drain none }, [.drained drain])
  else ({ play with drains := play.drains.set drain (some play.writes.inFlight) }, [])

def step : Event → Option (Play × List Output)
  | .begin => some ({ play with
      writes := play.writes.begin play.recorded.length
      recorded := play.recorded ++ [false] }, [])
  | .complete write completion => do
      let recorded ← play.recorded[write]?
      if recorded then return (play, [])
      else return ({ play with
        writes := play.writes.complete write completion
        recorded := play.recorded.set write true }, [.completed write completion])
  | .close => some ({ play with writes := { play.writes with closed := true } }, [])
  | .drain => some (await { play with drains := play.drains ++ [none] } play.drains.length)
  | .resume drain => do
      let awaited ← play.drains[drain]?.join
      guard (awaited.all fun write => play.recorded[write]? = some true)
      return play.await drain
  | .finish result secrets maxResultChars =>
      some (play, [.finished (play.writes.finish result secrets maxResultChars)])

end Play

end Connecta.WriteAccounts
