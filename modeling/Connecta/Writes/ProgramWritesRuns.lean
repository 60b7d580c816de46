import Connecta.Writes.ProgramWrites

/-!
# A program never hides a write

What a program's accounts hold is what its first completions said, in their
order.  The report shows a prefix of the unknown writes that said something,
within its room; the result carries the counts of every completed write.
-/

namespace Connecta.WriteAccounts

open Connecta.ErrorText
open Connecta.Foundation (OrderedMap)
open Connecta.Runtime
open Connecta.Transition
open Connecta.Writes (WriteState)

variable {play later : Play} {event : Event} {emitted outputs : List Output}

/-! ## What a run recorded -/

def Output.completion : Output → Option (ℕ × WriteCompletion)
  | .completed write completion => some (write, completion)
  | _ => none

/-- The writes that completed, with what was recorded of each. -/
def completions (outputs : List Output) : List (ℕ × WriteCompletion) :=
  outputs.filterMap Output.completion

/-- The unknown writes that came with a failure, in completion order. -/
def failures (outputs : List Output) : List UnknownWrite :=
  (completions outputs).filterMap fun completed => completed.2.failure

def ended (outputs : List Output) : List WriteState :=
  (completions outputs).map fun completed => completed.2.writeState

structure Recorded (play : Play) (outputs : List Output) : Prop where
  states : play.writes.states = ended outputs
  unknownWrites : play.writes.unknownWrites = (failures outputs).take MAX_REPORTED_WRITES
  truncated : play.writes.unknownWritesTruncated =
    decide (MAX_REPORTED_WRITES < (failures outputs).length)
  inFlight : ∀ write, write ∈ play.writes.inFlight ↔ play.recorded[write]? = some false
  distinct : play.writes.inFlight.Nodup
  completed : ∀ write, write ∈ (completions outputs).map Prod.fst ↔
    play.recorded[write]? = some true
  once : ((completions outputs).map Prod.fst).Nodup

/-- A step that completes nothing. -/
theorem Recorded.quiet (hrecorded : Recorded play outputs)
    (hwrites : later.writes = play.writes) (hlater : later.recorded = play.recorded)
    (hemitted : completions emitted = []) : Recorded later (outputs ++ emitted) := by
  have hsame : completions (outputs ++ emitted) = completions outputs := by
    rw [completions, List.filterMap_append, ← completions, ← completions, hemitted,
      List.append_nil]
  obtain ⟨hstates, hunknown, htruncated, hflight, hdistinct, hcompleted, honce⟩ := hrecorded
  constructor <;> simp only [ended, failures, hsame, hwrites, hlater] <;> assumption

/-- An entry with its comma takes at most what its facts and its message are charged. -/
theorem entry_bytes (write : UnknownWrite) (message : Option JsString) :
    Json.bytes ((ProgramWrites.facts write).say message).json + 1 ≤
      Json.bytes (ProgramWrites.facts write).json + 12 +
        message.elim 0 fun message => Json.bytes (.string message) := by
  cases message with
  | none =>
      have hsame : (ProgramWrites.facts write).say none = ProgramWrites.facts write := rfl
      rw [hsame, Option.elim_none]
      omega
  | some message =>
      have hmembers : ((ProgramWrites.facts write).say (some message)).members =
          (ProgramWrites.facts write).members ++
            [(JsString.ofAscii "message", .string message)] :=
        congrArg (· ++ [_]) (List.append_nil _).symm
      have hsome : (ProgramWrites.facts write).members ≠ [] := by
        simp [ProgramWrites.Entry.members]
      have hquote : JsString.bytes (Json.quote (JsString.ofAscii "message")) = 9 := by decide
      rw [ProgramWrites.Entry.json, ProgramWrites.Entry.json, hmembers, Json.bytes_object,
        Json.bytes_object, if_neg hsome, if_neg (by simp), List.map_append, List.sum_append,
        List.map_singleton, List.sum_singleton, hquote, Option.elim_some]
      dsimp only
      omega

/-- What the loop of `report` adds. -/
structure Adds (writes : List UnknownWrite) (left : ℤ) (truncated : Bool)
    (added : List ProgramWrites.Entry) (reported : Bool) : Prop where
  shown : added.length ≤ writes.length
  facts : (added.map fun entry => entry.say none) =
    (writes.take added.length).map ProgramWrites.facts
  room : ((added.map fun entry => Json.bytes entry.json + 1).sum : ℤ) ≤ left
  truncated : reported = true ↔ truncated = true ∨ added.length < writes.length ∨
    ∃ entry ∈ added, entry.message = none

theorem reportFrom_adds (secrets : ProgramWrites.SentSecrets) (writes : List UnknownWrite)
    {left : ℤ} (hleft : 0 ≤ left) (truncated : Bool) (entries : List ProgramWrites.Entry) :
    ∃ added, (ProgramWrites.reportFrom secrets writes left truncated entries).entries =
        entries ++ added ∧
      Adds writes left truncated added
        (ProgramWrites.reportFrom secrets writes left truncated entries).truncated := by
  induction writes generalizing left truncated entries with
  | nil => exact ⟨[], (List.append_nil entries).symm, le_rfl, rfl, hleft, by
      simp [ProgramWrites.reportFrom]⟩
  | cons write rest ih =>
      rw [ProgramWrites.reportFrom]
      dsimp only
      set charged := left - (Json.bytes (ProgramWrites.facts write).json + 12) with hcharged
      set message := fitted (if write.cut then secrets.redactOpenTail write.text
        else secrets.redactText write.text) (min charged MAX_TOOL_ERROR_BYTES) with hmessage
      by_cases hspent : charged < 0
      · rw [if_pos hspent]
        exact ⟨[], (List.append_nil entries).symm, Nat.zero_le _, rfl, hleft, by simp⟩
      · rw [if_neg hspent]
        have hfits : message.elim 0 (fun message => (Json.bytes (.string message) : ℤ)) ≤
            charged := by
          cases hfitted : message with
          | none => exact not_lt.mp hspent
          | some found =>
              rw [hfitted] at hmessage
              exact (fitted_fits hmessage.symm).trans (min_le_left _ _)
        have hnext : message.elim charged (fun message => charged - Json.bytes (.string message)) =
            charged - message.elim 0 (fun message => (Json.bytes (.string message) : ℤ)) := by
          cases message with
          | none => exact (sub_zero charged).symm
          | some found => rfl
        rw [hnext]
        obtain ⟨added, hadded, hshown, hfacts, hroom, htruncated⟩ := ih (sub_nonneg.mpr hfits)
          (truncated || message.isNone)
          (entries ++ [(ProgramWrites.facts write).say message])
        refine ⟨(ProgramWrites.facts write).say message :: added, ?_, ?_, ?_, ?_, ?_⟩
        · rw [hadded, List.append_assoc]
          rfl
        · exact Nat.succ_le_succ hshown
        · rw [List.map_cons, hfacts, List.length_cons, List.take_succ_cons, List.map_cons]
          rfl
        · have hentry := entry_bytes write message
          have hcast : (message.elim 0 (fun message => Json.bytes (.string message)) : ℕ) =
              (message.elim 0 fun message => (Json.bytes (.string message) : ℤ)) := by
            cases message <;> rfl
          rw [List.map_cons, List.sum_cons]
          push_cast at hroom ⊢
          omega
        · rw [htruncated, List.length_cons, List.length_cons, Bool.or_eq_true]
          simp only [List.mem_cons, exists_eq_or_imp, Option.isNone_iff_eq_none,
            Nat.add_lt_add_iff_right]
          tauto

/-! ## Properties -/

/-- A report shows the first unknown writes that said something. -/
structure Reports (failures : List UnknownWrite) (room : ℤ)
    (report : ProgramWrites.Report) : Prop where
  bounded : report.entries.length ≤ MAX_REPORTED_WRITES
  shown : (report.entries.map fun entry => entry.say none) =
    (failures.take report.entries.length).map ProgramWrites.facts
  room : (Json.bytes (.array (report.entries.map ProgramWrites.Entry.json)) : ℤ) ≤ room + 2
  truncated : report.truncated = true ↔ report.entries.length < failures.length ∨
    ∃ entry ∈ report.entries, entry.message = none

theorem Recorded.reports (hrecorded : Recorded play outputs)
    (secrets : ProgramWrites.SentSecrets) {room : ℤ} (hroom : 0 ≤ room) :
    Reports (failures outputs) room (play.writes.report secrets room) := by
  obtain ⟨added, hentries, hshown, hfacts, hbytes, htruncated⟩ :=
    reportFrom_adds secrets play.writes.unknownWrites hroom
      play.writes.unknownWritesTruncated []
  rw [List.nil_append] at hentries
  have hlength : play.writes.unknownWrites.length =
      min MAX_REPORTED_WRITES (failures outputs).length := by
    rw [hrecorded.unknownWrites, List.length_take]
  have hmore : play.writes.unknownWritesTruncated = true ↔
      MAX_REPORTED_WRITES < (failures outputs).length := by
    rw [hrecorded.truncated, decide_eq_true_eq]
  rw [hrecorded.unknownWrites, List.take_take] at hfacts
  have hreport : (play.writes.report secrets room).entries = added := hentries
  constructor
  case bounded => rw [hreport]; omega
  case shown =>
    rw [hreport, hfacts]
    congr 2
    omega
  case room =>
    rw [hreport, Json.bytes_array, List.map_map]
    have hsum : (added.map ((fun element => Json.bytes element + 1) ∘
        ProgramWrites.Entry.json)).sum = (added.map fun entry =>
          Json.bytes entry.json + 1).sum := rfl
    rw [hsum]
    push_cast at hbytes ⊢
    split_ifs <;> omega
  case truncated =>
    rw [hreport]
    refine htruncated.trans ⟨?_, ?_⟩
    · rintro (hmany | hfew | hmessage)
      · have := hmore.mp hmany
        exact Or.inl (by omega)
      · exact Or.inl (by omega)
      · exact Or.inr hmessage
    · rintro (hfew | hmessage)
      · by_cases hmany : MAX_REPORTED_WRITES < (failures outputs).length
        · exact Or.inl (hmore.mpr hmany)
        · exact Or.inr (Or.inl (by omega))
      · exact Or.inr (Or.inr hmessage)

end Connecta.WriteAccounts
