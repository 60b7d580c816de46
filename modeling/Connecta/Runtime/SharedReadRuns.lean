import Connecta.Runtime.SharedRead

/-!
# Shared reads settle once

The flag `ended` says whether the owner has been told, and it is set before an
outcome is recorded; the counter says who is still waiting.  Everything else
follows from these two, one step at a time.
-/

namespace Connecta.SharedRead

open Connecta.Foundation
open Connecta.Transition

variable {Value Reason : Type}

/-! ## Notes -/

namespace Note

def isEnd : Note Value Reason → Bool
  | .onEnd _ => true
  | .aborts _ | .settles _ | .returns _ _ => false

/-- The outcome that a note shows someone. -/
def shows : Note Value Reason → Option (Exit Value Reason)
  | .settles exit | .returns _ (.answer exit) => some exit
  | .aborts _ | .onEnd _ | .returns _ (.left _) | .returns _ .interrupted => none

end Note

/-- Whoever sees an outcome sees it after the owner was told. -/
def EndedFirst (notes : List (Note Value Reason)) : Prop :=
  ∀ before note after, notes = before ++ note :: after →
    note.shows.isSome = true → ∃ succeeded, .onEnd succeeded ∈ before

theorem endedFirst_nil : EndedFirst ([] : List (Note Value Reason)) := by
  intro before note after hnotes
  exact absurd hnotes.symm (by simp)

theorem EndedFirst.concat {notes : List (Note Value Reason)}
    (hfirst : EndedFirst notes) {note : Note Value Reason}
    (hnote : note.shows.isSome = true → ∃ succeeded, .onEnd succeeded ∈ notes) :
    EndedFirst (notes ++ [note]) := by
  intro before shown after hnotes hshown
  rcases List.eq_nil_or_concat after with rfl | ⟨rest, last, rfl⟩
  · obtain ⟨rfl, hsame⟩ := List.append_inj' hnotes rfl
    cases hsame
    exact hnote hshown
  · rw [List.concat_eq_append, ← List.cons_append, ← List.append_assoc]
      at hnotes
    exact hfirst before shown rest (List.append_inj' hnotes rfl).1 hshown

/-! ## Readers -/

section Readers

variable {read : Read Value Reason} {index other : ℕ}
variable {reader : Reader Value Reason}

theorem reader?_eq_some : read.reader? index = some reader ↔
    read.joins[index]? = some reader ∧ reader.waiting = true := by
  rw [Read.reader?, Option.filter_eq_some_iff]

/-- The reader at an index is the only one that is counted. -/
def Sole (read : Read Value Reason) (index : ℕ) : Prop :=
  ∀ other reader, read.reader? other = some reader → other = index

theorem countP_set_waiting (hreader : read.reader? index = some reader)
    (later : Reader Value Reason) :
    ((read.joins.set index later).countP Reader.waiting : ℤ) =
      read.joins.countP Reader.waiting - 1 + if later.waiting then 1 else 0 := by
  obtain ⟨hjoined, hwaiting⟩ := reader?_eq_some.mp hreader
  obtain ⟨hindex, hget⟩ := List.getElem?_eq_some_iff.mp hjoined
  have hpositive : 0 < read.joins.countP Reader.waiting :=
    List.countP_pos_iff.mpr ⟨reader, List.mem_of_getElem? hjoined, hwaiting⟩
  rw [List.countP_set hindex, hget, hwaiting, if_pos rfl]
  split <;> omega

/-- A count of one leaves no other reader. -/
theorem sole_of_count (hreader : read.reader? index = some reader)
    (hcount : read.joins.countP Reader.waiting ≤ 1) : Sole read index := by
  intro other found hfound
  by_contra hne
  have hset := countP_set_waiting hreader { reader with waiting := false }
  obtain ⟨hjoined, hwaiting⟩ := reader?_eq_some.mp hfound
  have hstays : (read.joins.set index { reader with waiting := false })[other]? =
      some found := by
    rw [List.getElem?_set_ne (Ne.symm hne)]
    exact hjoined
  have hpositive := List.countP_pos_iff.mpr
    ⟨found, List.mem_of_getElem? hstays, hwaiting⟩
  simp only [Bool.false_eq_true, if_false] at hset
  omega

theorem one_lt_count (hreader : read.reader? index = some reader)
    {found : Reader Value Reason} (hfound : read.reader? other = some found)
    (hother : other ≠ index) : 1 < read.joins.countP Reader.waiting := by
  by_contra hcount
  exact hother (sole_of_count hreader (not_lt.mp hcount) other found hfound)

@[simp]
theorem decide_waiting (reader : Reader Value Reason)
    (ending : Ending Value Reason) :
    (reader.decide ending).waiting = reader.waiting := by
  rw [Reader.decide]
  split <;> rfl

@[simp]
theorem decide_stage (reader : Reader Value Reason)
    (ending : Ending Value Reason) :
    (reader.decide ending).stage = reader.stage := by
  rw [Reader.decide]
  split <;> rfl

@[simp]
theorem hear_waiting (reader : Reader Value Reason) (exit : Exit Value Reason) :
    (reader.hear exit).waiting = reader.waiting := by
  rw [Reader.hear]
  split
  · rfl
  · exact decide_waiting reader _

@[simp]
theorem decide_result (reader : Reader Value Reason)
    (ending : Ending Value Reason) :
    (reader.decide ending).result = reader.result := by
  rw [Reader.decide]
  split <;> rfl

@[simp]
theorem hear_result (reader : Reader Value Reason) (exit : Exit Value Reason) :
    (reader.hear exit).result = reader.result := by
  rw [Reader.hear]
  split
  · rfl
  · exact decide_result reader _

theorem decide_undecided (reader : Reader Value Reason)
    (ending : Ending Value Reason) :
    (reader.decide ending).undecided = false := by
  rw [Reader.decide]
  split
  case isTrue => rfl
  case isFalse hdecided => exact Bool.eq_false_iff.mpr hdecided

end Readers

/-! ## Soundness of one read -/

/-- What a reader knows of the outcome. -/
structure Informed (outcome : Option (Exit Value Reason))
    (reader : Reader Value Reason) : Prop where
  answer : ∀ exit, reader.verdict = some (.answer exit) → outcome = some exit
  /-- Whoever awaits an outcome that was recorded has been resumed. -/
  heard : outcome.isSome = true → reader.stage ≠ .counted →
    reader.stage ≠ .started → reader.undecided = false
  result : reader.waiting = true → reader.result = none

structure Sound (read : Read Value Reason) : Prop where
  counted : read.readers = read.joins.countP Reader.waiting
  ends : read.notes.countP Note.isEnd = if read.ended then 1 else 0
  settled : read.outcome.isSome = true → read.ended = true
  cancelled : read.aborted.isSome = true → read.ended = true ∨ 0 < read.ending
  endedFirst : EndedFirst read.notes
  shown : ∀ note ∈ read.notes, ∀ exit, note.shows = some exit →
    read.outcome = some exit
  informed : ∀ reader ∈ read.joins, Informed read.outcome reader

section Steps

variable {read : Read Value Reason} {index : ℕ} {reader : Reader Value Reason}

theorem sound_init : Sound (Read.init : Read Value Reason) where
  counted := rfl
  ends := rfl
  settled := nofun
  cancelled := nofun
  endedFirst := endedFirst_nil
  shown := fun _ hnote => absurd hnote List.not_mem_nil
  informed := fun _ hreader => absurd hreader List.not_mem_nil

theorem Sound.onEnd (hsound : Sound read) (hended : read.ended = true) :
    ∃ succeeded, .onEnd succeeded ∈ read.notes := by
  have hends := hsound.ends
  rw [hended, if_pos rfl] at hends
  obtain ⟨note, hnote, hend⟩ := List.countP_pos_iff.mp (hends ▸ Nat.one_pos)
  cases note with
  | onEnd succeeded => exact ⟨succeeded, hnote⟩
  | aborts reason => cases hend
  | settles exit => cases hend
  | returns index ending => cases hend

/-- A note that tells nobody the outcome, and is no call of `onEnd`. -/
theorem Sound.note (hsound : Sound read) {note : Note Value Reason}
    (hend : note.isEnd = false)
    (hshows : ∀ exit, note.shows = some exit → read.outcome = some exit) :
    Sound (read.note note) :=
  { hsound with
    ends := by
      simp only [Read.note, List.countP_append, List.countP_singleton, hend,
        Bool.false_eq_true, if_false]
      exact hsound.ends
    endedFirst := by
      refine hsound.endedFirst.concat fun hshown => ?_
      obtain ⟨exit, hexit⟩ := Option.isSome_iff_exists.mp hshown
      exact hsound.onEnd (hsound.settled (by rw [hshows exit hexit]; rfl))
    shown := by
      intro other hother exit hexit
      rcases List.mem_append.mp hother with hold | hnew
      · exact hsound.shown other hold exit hexit
      · rw [List.mem_singleton.mp hnew] at hexit
        exact hshows exit hexit }

/-- `onEnd` is called once. -/
theorem Sound.endRead (hsound : Sound read) (succeeded : Bool) :
    Sound (read.endRead succeeded) ∧ (read.endRead succeeded).ended = true := by
  rw [Read.endRead]
  split
  case isTrue hended => exact ⟨hsound, hended⟩
  case isFalse hended =>
  refine ⟨{ hsound with
    ends := ?_, settled := fun _ => rfl, cancelled := fun _ => .inl rfl
    endedFirst := hsound.endedFirst.concat nofun, shown := ?_ }, rfl⟩
  · have hends := hsound.ends
    rw [if_neg hended] at hends
    simp only [Read.note, List.countP_append, hends]
    rfl
  · intro note hnote exit hexit
    rcases List.mem_append.mp hnote with hold | hnew
    · exact hsound.shown note hold exit hexit
    · rw [List.mem_singleton.mp hnew] at hexit
      cases hexit

@[simp]
theorem cancel_outcome (read : Read Value Reason) (reason : Option Reason) :
    (read.cancel reason).outcome = read.outcome := by
  rw [Read.cancel]
  split
  · rfl
  · rw [Read.abortSignal]
    split <;> rfl

theorem Sound.cancel (hsound : Sound read) (reason : Option Reason) :
    Sound (read.cancel reason) := by
  rw [Read.cancel]
  split
  · exact hsound
  have haborted : Sound { read.abortSignal reason with
      aborted := read.aborted } := by
    rw [Read.abortSignal]
    split
    · exact hsound
    · exact hsound.note rfl nofun
  exact { haborted with cancelled := fun _ => .inr (Nat.succ_pos _) }

theorem Sound.endCancelled (hsound : Sound read) :
    Sound read.endCancelled ∧ read.endCancelled.ended = true := by
  rw [Read.endCancelled, Read.endRead]
  split
  case isTrue hended =>
    exact ⟨{ hsound with cancelled := fun _ => .inl hended }, hended⟩
  case isFalse hended =>
    have hends := hsound.endRead false
    rw [Read.endRead, if_neg hended] at hends
    exact ⟨{ hends.1 with cancelled := fun _ => .inl rfl }, rfl⟩

theorem countP_hear (exit : Exit Value Reason)
    (joins : List (Reader Value Reason)) :
    (joins.map (Reader.hear exit)).countP Reader.waiting =
      joins.countP Reader.waiting := by
  rw [List.countP_map]
  exact congrArg (joins.countP ·) (funext fun reader => hear_waiting reader exit)

theorem informed_hear {exit : Exit Value Reason}
    (hanswer : ∀ known, reader.verdict = some (.answer known) → known = exit)
    (hresult : reader.waiting = true → reader.result = none) :
    Informed (some exit) (reader.hear exit) where
  answer := by
    intro known hknown
    rw [Reader.hear] at hknown
    split at hknown
    · rw [hanswer known hknown]
    rw [Reader.decide] at hknown
    split at hknown
    · cases hknown
      rfl
    · rw [hanswer known hknown]
  heard := by
    intro _ hcounted hstarted
    rw [Reader.hear] at hcounted hstarted ⊢
    split at hcounted
    case isTrue hearly =>
      rw [if_pos hearly] at hstarted
      exact (hearly.elim hcounted hstarted).elim
    case isFalse hearly =>
      rw [if_neg hearly]
      exact decide_undecided reader _
  result := by
    intro hwaiting
    rw [hear_waiting] at hwaiting
    rw [hear_result]
    exact hresult hwaiting

theorem Sound.complete (hsound : Sound read) (hended : read.ended = true)
    (exit : Exit Value Reason) : Sound (read.complete exit) := by
  rw [Read.complete]
  split
  · exact hsound
  case isFalse hnone =>
  have hopen : read.outcome = none := Option.not_isSome_iff_eq_none.mp hnone
  have hheard : Sound { read with
      outcome := some exit
      joins := read.joins.map (Reader.hear exit) } :=
    { hsound with
      counted := by
        simp only [countP_hear]
        exact hsound.counted
      settled := fun _ => hended
      shown := by
        intro note hnote known hknown
        have hshown := hsound.shown note hnote known hknown
        rw [hopen] at hshown
        cases hshown
      informed := by
        intro later hlater
        obtain ⟨reader, hreader, rfl⟩ := List.mem_map.mp hlater
        have hinformed := hsound.informed reader hreader
        rw [hopen] at hinformed
        exact informed_hear (fun known hknown =>
          nomatch hinformed.answer known hknown) hinformed.result }
  refine hheard.note rfl ?_
  rintro known ⟨⟩
  rfl

theorem Sound.settle (hsound : Sound read) (exit : Exit Value Reason) :
    Sound (read.settle exit) := by
  rw [Read.settle]
  have howned : Sound { read with owned := false } :=
    { hsound with counted := hsound.counted }
  obtain ⟨hends, hended⟩ := howned.endRead exit.isSuccess
  exact hends.complete hended exit

theorem Sound.start (hsound : Sound read) : Sound read.start := by
  rw [Read.start]
  split
  · exact hsound
  split
  case h_1 reason hclosed =>
    have hstarted : Sound { read with started := true } :=
      { hsound with counted := hsound.counted }
    have hcancelled := hstarted.cancel (some reason)
    dsimp only
    split
    · exact hcancelled.settle _
    · exact hcancelled.endCancelled.1.settle _
  case h_2 => exact { hsound with counted := hsound.counted }

theorem Sound.close (hsound : Sound read) (reason : Reason) :
    Sound (read.close reason) := by
  have hclosed : Sound { read with closed := some reason, owned := false } :=
    { hsound with counted := hsound.counted }
  rw [Read.close]
  split
  · exact hclosed.cancel _
  · exact hclosed

theorem Sound.join (hsound : Sound read) (signal : Option (Option Reason)) :
    Sound (read.join signal) :=
  { hsound with
    counted := by
      simp only [Read.join, List.countP_append, List.countP_singleton, if_true,
        hsound.counted]
      rfl
    informed := by
      intro reader hreader
      rcases List.mem_append.mp hreader with hold | hnew
      · exact hsound.informed reader hold
      · rw [List.mem_singleton.mp hnew]
        exact ⟨nofun, fun _ hcounted => absurd rfl hcounted, fun _ => rfl⟩ }

/-- A reader that stays counted goes on. -/
theorem Sound.setReader (hsound : Sound read)
    (hreader : read.reader? index = some reader) {later : Reader Value Reason}
    (hwaiting : later.waiting = true) (hlater : Informed read.outcome later) :
    Sound (read.setReader index later) :=
  { hsound with
    counted := by
      have hcount := countP_set_waiting hreader later
      rw [hwaiting, if_pos rfl, sub_add_cancel] at hcount
      exact hsound.counted.trans hcount.symm
    informed := by
      intro other hother
      rcases List.mem_or_eq_of_mem_set hother with hold | rfl
      · exact hsound.informed other hold
      · exact hlater }

theorem Sound.known (hsound : Sound read)
    (hreader : read.reader? index = some reader) :
    reader.waiting = true ∧ Informed read.outcome reader := by
  obtain ⟨hjoined, hwaiting⟩ := reader?_eq_some.mp hreader
  exact ⟨hwaiting, hsound.informed reader (List.mem_of_getElem? hjoined)⟩

theorem Informed.decide_left {outcome : Option (Exit Value Reason)}
    (hinformed : Informed outcome reader) (reason : Reason) :
    Informed outcome (reader.decide (.left reason)) where
  answer := by
    intro exit hexit
    rw [Reader.decide] at hexit
    split at hexit
    · cases hexit
    · exact hinformed.answer exit hexit
  heard := fun _ _ _ => decide_undecided reader _
  result := by
    intro hwaiting
    rw [decide_waiting] at hwaiting
    rw [decide_result]
    exact hinformed.result hwaiting

/-- A reader whose stage or signal changes knows what it knew. -/
theorem Informed.move {outcome : Option (Exit Value Reason)}
    (hinformed : Informed outcome reader) (hcounted : reader.stage ≠ .counted)
    (hstarted : reader.stage ≠ .started) (signal : Option (Option Reason))
    (stage : Stage) :
    Informed outcome { reader with signal := signal, stage := stage } where
  answer := hinformed.answer
  heard := fun houtcome _ _ => hinformed.heard houtcome hcounted hstarted
  result := hinformed.result

theorem Sound.onAbort (hsound : Sound read)
    (hreader : read.reader? index = some reader)
    (hcounted : reader.stage ≠ .counted) (hstarted : reader.stage ≠ .started)
    (reason : Reason) : Sound (read.onAbort index reader reason) := by
  obtain ⟨hwaiting, hinformed⟩ := hsound.known hreader
  have hmoved := hinformed.move hcounted hstarted (some (some reason)) .unheard
  rw [Read.onAbort]
  split
  · refine hsound.setReader hreader ?_ (hmoved.decide_left reason)
    rw [decide_waiting]
    exact hwaiting
  · exact (hsound.setReader hreader (by exact hwaiting) hmoved).cancel _

theorem Sound.leave (hsound : Sound read)
    (hreader : read.reader? index = some reader) :
    Sound (read.leave index reader) := by
  obtain ⟨hwaiting, hinformed⟩ := hsound.known hreader
  have hleft : Sound ({ read with readers := read.readers - 1 }.setReader index
      { reader with
        waiting := false
        result := some reader.ending }) :=
    { hsound with
      counted := by
        have hcount := countP_set_waiting hreader
          { reader with waiting := false, result := some reader.ending }
        rw [if_neg Bool.false_ne_true, add_zero] at hcount
        simp only [Read.setReader, hcount, hsound.counted]
      informed := by
        intro other hother
        rcases List.mem_or_eq_of_mem_set hother with hold | rfl
        · exact hsound.informed other hold
        · exact ⟨hinformed.answer, hinformed.heard, nofun⟩ }
  have hanswer : ∀ exit, reader.ending = .answer exit →
      read.outcome = some exit := by
    intro exit hexit
    rw [Reader.ending] at hexit
    split at hexit
    · cases hexit
    · cases hverdict : reader.verdict with
      | none =>
          rw [hverdict] at hexit
          cases hexit
      | some ending =>
          rw [hverdict] at hexit
          exact hinformed.answer exit (hverdict.trans (congrArg some hexit))
  have hshown : ∀ exit,
      (Note.returns index reader.ending).shows = some exit →
        reader.ending = .answer exit := by
    intro exit hexit
    cases hending : reader.ending with
    | answer known =>
        rw [hending] at hexit
        exact congrArg Ending.answer (Option.some.inj hexit)
    | left reason => rw [hending] at hexit; cases hexit
    | interrupted => rw [hending] at hexit; cases hexit
  rw [Read.leave]
  split
  · refine (hleft.cancel _).note rfl fun exit hexit => ?_
    rw [cancel_outcome]
    exact hanswer exit (hshown exit hexit)
  · exact hleft.note rfl fun exit hexit => hanswer exit (hshown exit hexit)

end Steps

/-! ## What one step can do -/

/-- The abort of a reader reaches its listener, at once or when it registers. -/
inductive Aborts (reader : Reader Value Reason) (index : ℕ) (reason : Reason) :
    Event Value Reason → Prop where
  | listening : reader.stage = .listening → reader.signal = some none →
      Aborts reader index reason (.abort index reason)
  | listens : reader.stage = .awaiting → reader.signal = some (some reason) →
      reader.undecided = true → Aborts reader index reason (.listen index)

inductive Moves (read : Read Value Reason) :
    Event Value Reason → Read Value Reason → Prop where
  | close (reason : Reason) : read.closed = none →
      Moves read (.close reason) (read.close reason)
  | join (signal : Option (Option Reason)) :
      Moves read (.join signal) (read.join signal)
  | endCancelled : Moves read .endCancelled read.endCancelled
  | settle (exit : Exit Value Reason) : read.running = true →
      Moves read (.settle exit) ({ read with running := false }.settle exit)
  | start (index : ℕ) (reader : Reader Value Reason) :
      read.reader? index = some reader → reader.stage = .counted →
      Moves read (.start index)
        (read.start.setReader index { reader with stage := .started })
  | await (index : ℕ) (reader : Reader Value Reason) :
      read.reader? index = some reader → reader.stage = .started →
      Moves read (.await index)
        (read.setReader index (match read.outcome with
          | some exit => { reader with stage := .awaiting }.hear exit
          | none => { reader with stage := .awaiting }))
  | listen (index : ℕ) (reader : Reader Value Reason) :
      read.reader? index = some reader → reader.stage = .awaiting →
      Moves read (.listen index)
        (read.setReader index { reader with stage := .listening })
  | onAbort (index : ℕ) (reader : Reader Value Reason) (reason : Reason)
      (event : Event Value Reason) : read.reader? index = some reader →
      Aborts reader index reason event →
      Moves read event (read.onAbort index reader reason)
  | abort (index : ℕ) (reader : Reader Value Reason) (reason : Reason) :
      read.reader? index = some reader → reader.stage ≠ .listening →
      Moves read (.abort index reason)
        (read.setReader index { reader with signal := some (some reason) })
  | unlisten (index : ℕ) (reader : Reader Value Reason) :
      read.reader? index = some reader → reader.stage = .listening →
      reader.undecided = false →
      Moves read (.unlisten index)
        (read.setReader index { reader with stage := .unheard })
  | interrupt (index : ℕ) (reader : Reader Value Reason) :
      read.reader? index = some reader →
      Moves read (.interrupt index)
        (read.setReader index { reader with interrupted := true })
  | leave (index : ℕ) (reader : Reader Value Reason) :
      read.reader? index = some reader → reader.undecided = false →
      Moves read (.leave index) (read.leave index reader)

section Moves

variable {read later : Read Value Reason} {event : Event Value Reason}

theorem readerStep_moves {index : ℕ} {reader : Reader Value Reason}
    (hreader : read.reader? index = some reader)
    (hevent : event = .start index ∨ event = .await index ∨
      event = .listen index ∨ (∃ reason, event = .abort index reason) ∨
      event = .unlisten index ∨ event = .interrupt index ∨ event = .leave index)
    (hstep : read.readerStep index reader event = some later) :
    Moves read event later := by
  rcases hevent with rfl | rfl | rfl | ⟨reason, rfl⟩ | rfl | rfl | rfl
  · obtain ⟨⟨hstage, -⟩, ⟨⟩⟩ := Option.ite_none_right_eq_some.mp hstep
    exact .start index reader hreader hstage
  · obtain ⟨⟨hstage, -⟩, hlater⟩ := Option.ite_none_right_eq_some.mp hstep
    rw [← Option.some.inj hlater]
    exact .await index reader hreader hstage
  · simp only [Read.readerStep] at hstep
    split at hstep
    · cases hstep
    case h_2 aborted hsignal =>
    obtain ⟨⟨hstage, hopen⟩, hlater⟩ := Option.ite_none_right_eq_some.mp hstep
    cases aborted with
    | some reason =>
        cases hlater
        exact .onAbort index reader reason _ hreader
          (.listens hstage hsignal hopen)
    | none =>
        cases hlater
        exact .listen index reader hreader hstage
  · simp only [Read.readerStep] at hstep
    split at hstep
    case h_1 hsignal =>
      split at hstep
      case isTrue hstage =>
        cases hstep
        exact .onAbort index reader reason _ hreader (.listening hstage hsignal)
      case isFalse hstage =>
        cases hstep
        exact .abort index reader reason hreader hstage
    · cases hstep
    · cases hstep
  · obtain ⟨⟨hstage, hover⟩, ⟨⟩⟩ := Option.ite_none_right_eq_some.mp hstep
    exact .unlisten index reader hreader hstage (Bool.not_eq_true' _ ▸ hover)
  · cases hstep
    exact .interrupt index reader hreader
  · obtain ⟨⟨-, hover⟩, ⟨⟩⟩ := Option.ite_none_right_eq_some.mp hstep
    exact .leave index reader hreader (Bool.not_eq_true' _ ▸ hover)

theorem step_moves (hstep : read.step event = some later) :
    Moves read event later := by
  have hreaders : ∀ index, (read.reader? index).bind
        (fun reader => read.readerStep index reader event) = some later →
      (event = .start index ∨ event = .await index ∨
        event = .listen index ∨ (∃ reason, event = .abort index reason) ∨
        event = .unlisten index ∨ event = .interrupt index ∨
        event = .leave index) → Moves read event later := by
    intro index hbind hevent
    obtain ⟨reader, hreader, hmoves⟩ := Option.bind_eq_some_iff.mp hbind
    exact readerStep_moves hreader hevent hmoves
  cases event with
  | close reason =>
      obtain ⟨hopen, ⟨⟩⟩ := Option.ite_none_right_eq_some.mp hstep
      exact .close reason (Option.isNone_iff_eq_none.mp hopen)
  | join signal =>
      cases hstep
      exact .join signal
  | endCancelled =>
      obtain ⟨-, ⟨⟩⟩ := Option.ite_none_right_eq_some.mp hstep
      exact .endCancelled
  | settle exit =>
      obtain ⟨hrunning, ⟨⟩⟩ := Option.ite_none_right_eq_some.mp hstep
      exact .settle exit hrunning
  | start index => exact hreaders index hstep (by simp)
  | await index => exact hreaders index hstep (by simp)
  | listen index => exact hreaders index hstep (by simp)
  | abort index reason => exact hreaders index hstep (by simp)
  | unlisten index => exact hreaders index hstep (by simp)
  | interrupt index => exact hreaders index hstep (by simp)
  | leave index => exact hreaders index hstep (by simp)

/-! ## What a step leaves alone -/

@[simp]
theorem endRead_joins (read : Read Value Reason) (succeeded : Bool) :
    (read.endRead succeeded).joins = read.joins := by
  rw [Read.endRead]
  split <;> rfl

@[simp]
theorem endRead_aborted (read : Read Value Reason) (succeeded : Bool) :
    (read.endRead succeeded).aborted = read.aborted := by
  rw [Read.endRead]
  split <;> rfl

@[simp]
theorem cancel_joins (read : Read Value Reason) (reason : Option Reason) :
    (read.cancel reason).joins = read.joins := by
  rw [Read.cancel]
  split
  · rfl
  · rw [Read.abortSignal]
    split <;> rfl

@[simp]
theorem complete_aborted (read : Read Value Reason) (exit : Exit Value Reason) :
    (read.complete exit).aborted = read.aborted := by
  rw [Read.complete]
  split <;> rfl

@[simp]
theorem endCancelled_aborted (read : Read Value Reason) :
    read.endCancelled.aborted = read.aborted :=
  endRead_aborted _ _

@[simp]
theorem endCancelled_joins (read : Read Value Reason) :
    read.endCancelled.joins = read.joins :=
  endRead_joins _ _

@[simp]
theorem settle_aborted (read : Read Value Reason) (exit : Exit Value Reason) :
    (read.settle exit).aborted = read.aborted := by
  rw [Read.settle, complete_aborted, endRead_aborted]

/-- The only thing a settlement does to a reader is that it may hear of it. -/
theorem settle_joins (read : Read Value Reason) (exit : Exit Value Reason) :
    (read.settle exit).joins = read.joins ∨
      (read.settle exit).joins = read.joins.map (Reader.hear exit) := by
  rw [Read.settle, Read.complete]
  split
  · exact .inl (endRead_joins _ _)
  · refine .inr ?_
    simp only [Read.note, endRead_joins]

theorem start_joins (read : Read Value Reason) :
    read.start.joins = read.joins ∨
      ∃ exit, read.start.joins = read.joins.map (Reader.hear exit) := by
  rw [Read.start]
  split
  · exact .inl rfl
  split
  case h_1 reason _ =>
    dsimp only
    split
    · have hjoins := settle_joins
        ({ read with started := true }.cancel (some reason)) (.failure reason)
      rw [cancel_joins] at hjoins
      exact hjoins.imp_right fun hheard => ⟨_, hheard⟩
    · have hjoins := settle_joins
        ({ read with started := true }.cancel (some reason)).endCancelled
        (.failure reason)
      rw [endCancelled_joins, cancel_joins] at hjoins
      exact hjoins.imp_right fun hheard => ⟨_, hheard⟩
  case h_2 => exact .inl rfl

theorem hear_counted {reader : Reader Value Reason}
    (hcounted : reader.stage = .counted) (exit : Exit Value Reason) :
    reader.hear exit = reader :=
  if_pos (.inl hcounted)

/-- Nobody hears of an outcome before awaiting it. -/
theorem start_reader? {index : ℕ} {reader : Reader Value Reason}
    (hreader : read.reader? index = some reader)
    (hcounted : reader.stage = .counted) :
    read.start.reader? index = some reader := by
  obtain ⟨hjoined, hwaiting⟩ := reader?_eq_some.mp hreader
  refine reader?_eq_some.mpr ⟨?_, hwaiting⟩
  rcases start_joins read with hsame | ⟨exit, hheard⟩
  · rw [hsame]
    exact hjoined
  · rw [hheard, List.getElem?_map, hjoined, Option.map_some,
      hear_counted hcounted]

/-! ## One step keeps everything sound -/

theorem Sound.moves (hsound : Sound read) (hmoves : Moves read event later) :
    Sound later := by
  cases hmoves with
  | close reason _ => exact hsound.close reason
  | join signal => exact hsound.join signal
  | endCancelled => exact hsound.endCancelled.1
  | settle exit _ =>
      have hstopped : Sound { read with running := false } :=
        { hsound with counted := hsound.counted }
      exact hstopped.settle exit
  | start index reader hreader hcounted =>
      have hlater := start_reader? hreader hcounted
      obtain ⟨hwaiting, hinformed⟩ := hsound.start.known hlater
      refine hsound.start.setReader hlater (by exact hwaiting) ?_
      exact ⟨hinformed.answer, fun _ _ hstarted => absurd rfl hstarted,
        hinformed.result⟩
  | await index reader hreader hstarted =>
      obtain ⟨hwaiting, hinformed⟩ := hsound.known hreader
      cases houtcome : read.outcome with
      | none =>
          refine hsound.setReader hreader (by exact hwaiting) ?_
          rw [houtcome] at hinformed ⊢
          exact ⟨hinformed.answer, nofun, hinformed.result⟩
      | some exit =>
          refine hsound.setReader hreader (by rw [hear_waiting]; exact hwaiting)
            ?_
          rw [houtcome] at hinformed ⊢
          exact informed_hear (fun known hknown =>
            (Option.some.inj (hinformed.answer known hknown)).symm)
            hinformed.result
  | listen index reader hreader hawaits =>
      obtain ⟨hwaiting, hinformed⟩ := hsound.known hreader
      exact hsound.setReader hreader (by exact hwaiting)
        (hinformed.move (by simp [hawaits]) (by simp [hawaits]) _ _)
  | onAbort index reader reason event hreader haborts =>
      have hstage : reader.stage ≠ .counted ∧ reader.stage ≠ .started := by
        cases haborts with
        | listening hlistening _ => simp [hlistening]
        | listens hawaits _ _ => simp [hawaits]
      exact hsound.onAbort hreader hstage.1 hstage.2 reason
  | abort index reader reason hreader _ =>
      obtain ⟨hwaiting, hinformed⟩ := hsound.known hreader
      exact hsound.setReader hreader (by exact hwaiting)
        ⟨hinformed.answer, hinformed.heard, hinformed.result⟩
  | unlisten index reader hreader hlistening _ =>
      obtain ⟨hwaiting, hinformed⟩ := hsound.known hreader
      exact hsound.setReader hreader (by exact hwaiting)
        (hinformed.move (by simp [hlistening]) (by simp [hlistening]) _ _)
  | interrupt index reader hreader =>
      obtain ⟨hwaiting, hinformed⟩ := hsound.known hreader
      refine hsound.setReader hreader (by exact hwaiting)
        ⟨hinformed.answer, fun _ _ _ => ?_, hinformed.result⟩
      exact Bool.and_false _
  | leave index reader hreader _ => exact hsound.leave hreader

@[simp]
theorem cancel_ended (read : Read Value Reason) (reason : Option Reason) :
    (read.cancel reason).ended = read.ended := by
  rw [Read.cancel]
  split
  · rfl
  · rw [Read.abortSignal]
    split <;> rfl

theorem endRead_ended (read : Read Value Reason) (succeeded : Bool) :
    (read.endRead succeeded).ended = true := by
  rw [Read.endRead]
  split
  case isTrue hended => exact hended
  case isFalse => rfl

theorem settle_ended (read : Read Value Reason) (exit : Exit Value Reason) :
    (read.settle exit).ended = true := by
  rw [Read.settle, Read.complete]
  split
  · exact endRead_ended _ _
  · exact endRead_ended { read with owned := false } _

/-- A read that ended stays so. -/
theorem ended_of_moves (hmoves : Moves read event later)
    (hended : read.ended = true) : later.ended = true := by
  cases hmoves with
  | close reason _ =>
      rw [Read.close]
      split
      · rw [cancel_ended]
        exact hended
      · exact hended
  | join signal => exact hended
  | endCancelled => exact endRead_ended _ _
  | settle exit _ => exact settle_ended _ _
  | start index reader _ _ =>
      change read.start.ended = true
      rw [Read.start]
      split
      · exact hended
      split
      · exact settle_ended _ _
      · exact hended
  | await index reader _ _ => exact hended
  | listen index reader _ _ => exact hended
  | abort index reader reason _ _ => exact hended
  | unlisten index reader _ _ _ => exact hended
  | interrupt index reader _ => exact hended
  | onAbort index reader reason event _ _ =>
      rw [Read.onAbort]
      split
      · exact hended
      · rw [cancel_ended]
        exact hended
  | leave index reader _ _ =>
      rw [Read.leave]
      split
      · exact (cancel_ended _ _).trans hended
      · exact hended

/-! ## When the signal of a read aborts -/

/-- What the signal of a read may abort for: its request closed, or the last
reader left or aborted. -/
inductive Justified (read : Read Value Reason) : Event Value Reason → Prop where
  | closes (reason : Reason) : read.closed = none →
      Justified read (.close reason)
  | closed (index : ℕ) : read.closed.isSome = true →
      Justified read (.start index)
  | leaves (index : ℕ) (reader : Reader Value Reason) :
      read.reader? index = some reader → Sole read index →
      Justified read (.leave index)
  | aborts (index : ℕ) (reader : Reader Value Reason) (reason : Reason)
      (event : Event Value Reason) : read.reader? index = some reader →
      Sole read index → Aborts reader index reason event → Justified read event

theorem start_aborted (hopen : read.closed = none) :
    read.start.aborted = read.aborted := by
  rw [Read.start]
  split
  · rfl
  · rw [hopen]

theorem Sound.justified (hsound : Sound read) (hmoves : Moves read event later)
    (haborts : later.aborted ≠ read.aborted) : Justified read event := by
  cases hmoves with
  | close reason hopen => exact .closes reason hopen
  | join signal => exact absurd rfl haborts
  | endCancelled => exact absurd (endCancelled_aborted read) haborts
  | settle exit _ => exact absurd (settle_aborted _ exit) haborts
  | start index reader hreader _ =>
      refine .closed index ?_
      by_contra hopen
      exact haborts (start_aborted (Option.not_isSome_iff_eq_none.mp hopen))
  | await index reader hreader _ => exact absurd rfl haborts
  | listen index reader hreader _ => exact absurd rfl haborts
  | abort index reader reason hreader _ => exact absurd rfl haborts
  | unlisten index reader hreader _ _ => exact absurd rfl haborts
  | interrupt index reader hreader => exact absurd rfl haborts
  | onAbort index reader reason event hreader hevent =>
      refine .aborts index reader reason event hreader ?_ hevent
      rw [Read.onAbort] at haborts
      split at haborts
      · exact absurd rfl haborts
      case isFalse hfew =>
        have hcounted := hsound.counted
        exact sole_of_count hreader (by omega)
  | leave index reader hreader _ =>
      refine .leaves index reader hreader ?_
      rw [Read.leave] at haborts
      split at haborts
      case isFalse => exact absurd rfl haborts
      case isTrue hlast =>
        have hcounted := hsound.counted
        have hnone : read.readers - 1 = 0 := hlast
        exact sole_of_count hreader (by omega)

/-! ## A reader that aborts while another waits -/

/-- What a step may do to a reader: a verdict stays, and a reader that leaves
returns it unless it was interrupted. -/
structure Follows (reader later : Reader Value Reason) : Prop where
  verdict : ∀ ending, reader.verdict = some ending →
    later.verdict = some ending
  interrupted : reader.interrupted = true → later.interrupted = true
  result : later.result = reader.result ∨ later.result = some reader.ending

theorem Follows.refl (reader : Reader Value Reason) : Follows reader reader :=
  ⟨fun _ hverdict => hverdict, id, .inl rfl⟩

theorem follows_hear (reader : Reader Value Reason) (exit : Exit Value Reason) :
    Follows reader (reader.hear exit) where
  verdict := by
    intro ending hverdict
    rw [Reader.hear]
    split
    · exact hverdict
    · rw [Reader.decide, if_neg (by simp [Reader.undecided, hverdict])]
      exact hverdict
  interrupted := by
    intro hinterrupted
    rw [Reader.hear]
    split
    · exact hinterrupted
    · rw [Reader.decide, if_neg (by simp [Reader.undecided, hinterrupted])]
      exact hinterrupted
  result := .inl (hear_result reader exit)

theorem follows_decide (reader : Reader Value Reason) (ending : Ending Value Reason)
    (signal : Option (Option Reason)) (stage : Stage) :
    Follows reader
      ({ reader with signal := signal, stage := stage }.decide ending) where
  verdict := by
    intro known hverdict
    rw [Reader.decide, if_neg (by simp [Reader.undecided, hverdict])]
    exact hverdict
  interrupted := by
    intro hinterrupted
    rw [Reader.decide, if_neg (by simp [Reader.undecided, hinterrupted])]
    exact hinterrupted
  result := .inl (decide_result _ ending)

/-- Setting one reader leaves the others alone. -/
theorem follows_set {joins : List (Reader Value Reason)} {index other : ℕ}
    {reader later found : Reader Value Reason}
    (hreader : joins[index]? = some reader) (hfollows : Follows reader later)
    (hfound : joins[other]? = some found) :
    ∃ after, (joins.set index later)[other]? = some after ∧
      Follows found after := by
  by_cases hsame : other = index
  · subst hsame
    rw [hreader] at hfound
    cases hfound
    refine ⟨later, ?_, hfollows⟩
    rw [List.getElem?_set_self (List.getElem?_eq_some_iff.mp hreader).1]
  · rw [List.getElem?_set_ne (Ne.symm hsame)]
    exact ⟨found, hfound, .refl found⟩

theorem follows_map {joins : List (Reader Value Reason)} {other : ℕ}
    {found : Reader Value Reason} (exit : Exit Value Reason)
    (hfound : joins[other]? = some found) :
    ∃ after, (joins.map (Reader.hear exit))[other]? = some after ∧
      Follows found after := by
  rw [List.getElem?_map, hfound]
  exact ⟨_, rfl, follows_hear found exit⟩

/-- Every reader follows itself through a step. -/
theorem moves_follow (hmoves : Moves read event later) {other : ℕ}
    {found : Reader Value Reason} (hfound : read.joins[other]? = some found) :
    ∃ after, later.joins[other]? = some after ∧ Follows found after := by
  have hset : ∀ index reader changed, read.reader? index = some reader →
      Follows reader changed → ∃ after,
        (read.joins.set index changed)[other]? = some after ∧
          Follows found after := by
    intro index reader changed hreader hfollows
    exact follows_set (reader?_eq_some.mp hreader).1 hfollows hfound
  cases hmoves with
  | close reason _ =>
      refine ⟨found, ?_, .refl found⟩
      rw [Read.close]
      split
      · rw [cancel_joins]
        exact hfound
      · exact hfound
  | join signal =>
      refine ⟨found, ?_, .refl found⟩
      exact (List.getElem?_append_left
        (List.getElem?_eq_some_iff.mp hfound).1).trans hfound
  | endCancelled =>
      rw [endCancelled_joins]
      exact ⟨found, hfound, .refl found⟩
  | settle exit _ =>
      rcases settle_joins { read with running := false } exit with
        hsame | hheard
      · rw [hsame]
        exact ⟨found, hfound, .refl found⟩
      · rw [hheard]
        exact follows_map exit hfound
  | start index reader hreader hcounted =>
      have hlater := (reader?_eq_some.mp (start_reader? hreader hcounted)).1
      by_cases hsame : other = index
      · subst hsame
        rw [(reader?_eq_some.mp hreader).1] at hfound
        cases hfound
        refine ⟨{ found with stage := .started }, ?_,
          fun _ hverdict => hverdict, id, .inl rfl⟩
        exact List.getElem?_set_self (List.getElem?_eq_some_iff.mp hlater).1
      · simp only [Read.setReader, List.getElem?_set_ne (Ne.symm hsame)]
        rcases start_joins read with hstays | ⟨exit, hheard⟩
        · rw [hstays]
          exact ⟨found, hfound, .refl found⟩
        · rw [hheard]
          exact follows_map exit hfound
  | await index reader hreader _ =>
      refine hset index reader _ hreader ?_
      cases read.outcome with
      | none => exact ⟨fun _ hverdict => hverdict, id, .inl rfl⟩
      | some exit =>
          have hheard := follows_hear { reader with stage := .awaiting } exit
          exact ⟨hheard.verdict, hheard.interrupted, hheard.result⟩
  | listen index reader hreader _ =>
      exact hset index reader _ hreader
        ⟨fun _ hverdict => hverdict, id, .inl rfl⟩
  | abort index reader reason hreader _ =>
      exact hset index reader _ hreader
        ⟨fun _ hverdict => hverdict, id, .inl rfl⟩
  | unlisten index reader hreader _ _ =>
      exact hset index reader _ hreader
        ⟨fun _ hverdict => hverdict, id, .inl rfl⟩
  | interrupt index reader hreader =>
      exact hset index reader _ hreader
        ⟨fun _ hverdict => hverdict, fun _ => rfl, .inl rfl⟩
  | onAbort index reader reason event hreader _ =>
      rw [Read.onAbort]
      split
      · exact hset index reader _ hreader (follows_decide reader _ _ _)
      · rw [cancel_joins]
        exact hset index reader _ hreader
          ⟨fun _ hverdict => hverdict, id, .inl rfl⟩
  | leave index reader hreader _ =>
      have hleaves : Follows reader { reader with
          waiting := false
          result := some reader.ending } :=
        ⟨fun _ hverdict => hverdict, id, .inr rfl⟩
      rw [Read.leave]
      split
      · simp only [Read.note, cancel_joins]
        exact hset index reader _ hreader hleaves
      · exact hset index reader _ hreader hleaves

/-- The reader at an index has failed with its own reason, or will. -/
def Leaves (read : Read Value Reason) (index : ℕ) (reason : Reason) : Prop :=
  ∃ reader, read.joins[index]? = some reader ∧
    reader.verdict = some (.left reason) ∧
    ∀ ending, reader.result = some ending →
      ending = .left reason ∨
        reader.interrupted = true ∧ ending = .interrupted

theorem Leaves.moves {index : ℕ} {reason : Reason}
    (hleaves : Leaves read index reason) (hmoves : Moves read event later) :
    Leaves later index reason := by
  obtain ⟨reader, hreader, hverdict, hresult⟩ := hleaves
  obtain ⟨after, hafter, hfollows⟩ := moves_follow hmoves hreader
  refine ⟨after, hafter, hfollows.verdict _ hverdict, fun ending hending => ?_⟩
  rcases hfollows.result with hsame | hleft
  · rw [hsame] at hending
    exact (hresult ending hending).imp_right fun hinterrupted =>
      ⟨hfollows.interrupted hinterrupted.1, hinterrupted.2⟩
  · rw [hleft, Reader.ending] at hending
    split at hending
    case isTrue hinterrupted =>
      exact .inr ⟨hfollows.interrupted hinterrupted,
        (Option.some.inj hending).symm⟩
    case isFalse =>
      rw [hverdict] at hending
      exact .inl (Option.some.inj hending).symm

theorem Leaves.leads {index : ℕ} {reason : Reason} {final : Read Value Reason}
    (hleaves : Leaves read index reason)
    (hleads : sharedRead.Leads read final) : Leaves final index reason := by
  refine hleads.persist (motive := fun read => Leaves read index reason) ?_
    hleaves
  intro before event after emitted hbefore hstep
  obtain ⟨found, hfound, ⟨⟩⟩ := Option.map_eq_some_iff.mp hstep
  exact hbefore.moves (step_moves hfound)

theorem aborts_step {index : ℕ} {reader : Reader Value Reason} {reason : Reason}
    (hreader : read.reader? index = some reader)
    (haborts : Aborts reader index reason event) :
    read.step event = some (read.onAbort index reader reason) := by
  cases haborts with
  | listening hlistening hsignal =>
      simp only [Read.step, hreader, Option.bind_some, Read.readerStep, hsignal,
        hlistening, if_true]
  | listens hawaits hsignal hopen =>
      simp only [Read.step, hreader, Option.bind_some, Read.readerStep, hsignal,
        hawaits, hopen, and_self, if_true]

/-- Whoever aborts while another waits fails alone. -/
theorem Sound.alone (hsound : Sound read) {index other : ℕ}
    {reader found : Reader Value Reason} {reason : Reason}
    (hreader : read.reader? index = some reader)
    (hopen : reader.undecided = true)
    (hfound : read.reader? other = some found) (hother : other ≠ index) :
    (read.onAbort index reader reason).aborted = read.aborted ∧
      (read.onAbort index reader reason).notes = read.notes ∧
      Leaves (read.onAbort index reader reason) index reason := by
  have hmany : read.readers > 1 := by
    have hcount := one_lt_count hreader hfound hother
    have hcounted := hsound.counted
    omega
  obtain ⟨hwaiting, hinformed⟩ := hsound.known hreader
  have hindex := (List.getElem?_eq_some_iff.mp
    (reader?_eq_some.mp hreader).1).1
  rw [Read.onAbort, if_pos hmany]
  refine ⟨rfl, rfl, _, List.getElem?_set_self hindex, ?_, ?_⟩
  · rw [Reader.decide, if_pos (by exact hopen)]
  · intro ending hending
    rw [decide_result] at hending
    exact absurd (hending.symm.trans (hinformed.result hwaiting)) nofun

end Moves

/-! ## Every run -/

/-- How far a read has come. -/
structure Progress (read : Read Value Reason) : Prop where
  started : read.started = true →
    read.running = true ∨ read.outcome.isSome = true
  awaited : ∀ reader ∈ read.joins, reader.stage ≠ .counted →
    read.started = true

section Progress

variable {read later : Read Value Reason} {event : Event Value Reason}

/-- The facts about progress, which calls of `end` and `cancel` leave alone. -/
def Read.progress (read : Read Value Reason) :
    Bool × Bool × Option (Exit Value Reason) :=
  (read.started, read.running, read.outcome)

theorem endRead_progress (read : Read Value Reason) (succeeded : Bool) :
    (read.endRead succeeded).progress = read.progress := by
  rw [Read.endRead]
  split <;> rfl

theorem cancel_progress (read : Read Value Reason) (reason : Option Reason) :
    (read.cancel reason).progress = read.progress := by
  rw [Read.cancel]
  split
  · rfl
  · rw [Read.abortSignal]
    split <;> rfl

theorem settle_progress (read : Read Value Reason) (exit : Exit Value Reason) :
    (read.settle exit).started = read.started ∧
      (read.settle exit).outcome.isSome = true := by
  have hends := endRead_progress { read with owned := false } exit.isSuccess
  simp only [Read.progress, Prod.mk.injEq] at hends
  rw [Read.settle, Read.complete]
  split
  case isTrue hsome => exact ⟨hends.1, hsome⟩
  case isFalse => exact ⟨hends.1, rfl⟩

theorem start_progress (hprogress : Progress read) :
    read.start.started = true ∧
      (read.start.running = true ∨ read.start.outcome.isSome = true) := by
  rw [Read.start]
  split
  case isTrue hstarted => exact ⟨hstarted, hprogress.started hstarted⟩
  split
  case h_1 reason _ =>
    have hcancels := cancel_progress { read with started := true } (some reason)
    simp only [Read.progress, Prod.mk.injEq] at hcancels
    dsimp only
    split
    · have hsettled := settle_progress
        ({ read with started := true }.cancel (some reason)) (.failure reason)
      exact ⟨hsettled.1.trans hcancels.1, .inr hsettled.2⟩
    · have hends := endRead_progress
        { ({ read with started := true }.cancel (some reason)) with
          ending := ({ read with started := true }.cancel (some reason)).ending - 1 }
        false
      simp only [Read.progress, Prod.mk.injEq] at hends
      have hsettled := settle_progress
        ({ read with started := true }.cancel (some reason)).endCancelled
        (.failure reason)
      exact ⟨hsettled.1.trans (hends.1.trans hcancels.1), .inr hsettled.2⟩
  case h_2 => exact ⟨rfl, .inl rfl⟩

theorem Progress.same (hprogress : Progress read)
    (hsame : later.progress = read.progress)
    (hjoins : ∀ reader ∈ later.joins, reader.stage ≠ .counted →
      reader ∈ read.joins ∨ read.started = true) : Progress later := by
  simp only [Read.progress, Prod.mk.injEq] at hsame
  obtain ⟨hstarted, hrunning, houtcome⟩ := hsame
  constructor
  · rw [hstarted, hrunning, houtcome]
    exact hprogress.started
  · intro reader hreader hcounted
    rw [hstarted]
    rcases hjoins reader hreader hcounted with hold | hdone
    · exact hprogress.awaited reader hold hcounted
    · exact hdone

theorem hear_stage (reader : Reader Value Reason) (exit : Exit Value Reason) :
    (reader.hear exit).stage = reader.stage := by
  rw [Reader.hear]
  split
  · rfl
  · exact decide_stage reader _

theorem Progress.setReader (hprogress : Progress read) {index : ℕ}
    {reader changed : Reader Value Reason}
    (hreader : read.reader? index = some reader)
    (hstage : changed.stage ≠ .counted → reader.stage ≠ .counted) :
    Progress (read.setReader index changed) := by
  refine hprogress.same rfl fun other hother hcounted => ?_
  rcases List.mem_or_eq_of_mem_set hother with hold | rfl
  · exact .inl hold
  · exact .inr (hprogress.awaited reader
      (List.mem_of_getElem? (reader?_eq_some.mp hreader).1) (hstage hcounted))

theorem Progress.moves (hprogress : Progress read)
    (hmoves : Moves read event later) : Progress later := by
  cases hmoves with
  | close reason _ =>
      rw [Read.close]
      split
      · refine hprogress.same (cancel_progress _ _) fun reader hreader _ => ?_
        rw [cancel_joins] at hreader
        exact .inl hreader
      · exact hprogress.same rfl fun reader hreader _ => .inl hreader
  | join signal =>
      refine hprogress.same rfl fun reader hreader hcounted => ?_
      rcases List.mem_append.mp hreader with hold | hnew
      · exact .inl hold
      · rw [List.mem_singleton.mp hnew] at hcounted
        exact absurd rfl hcounted
  | endCancelled =>
      refine hprogress.same (endRead_progress _ _) fun reader hreader _ => ?_
      rw [endCancelled_joins] at hreader
      exact .inl hreader
  | settle exit _ =>
      obtain ⟨hstarted, houtcome⟩ :=
        settle_progress { read with running := false } exit
      refine ⟨fun _ => .inr houtcome, fun reader hreader hcounted => ?_⟩
      rw [hstarted]
      rcases settle_joins { read with running := false } exit with
        hsame | hheard
      · rw [hsame] at hreader
        exact hprogress.awaited reader hreader hcounted
      · rw [hheard] at hreader
        obtain ⟨before, hbefore, rfl⟩ := List.mem_map.mp hreader
        rw [hear_stage] at hcounted
        exact hprogress.awaited before hbefore hcounted
  | start index reader _ _ =>
      obtain ⟨hstarted, halive⟩ := start_progress hprogress
      exact ⟨fun _ => halive, fun _ _ _ => hstarted⟩
  | await index reader hreader hstarted =>
      exact hprogress.setReader hreader fun _ => by simp [hstarted]
  | listen index reader hreader hawaits =>
      exact hprogress.setReader hreader fun _ => by simp [hawaits]
  | abort index reader reason hreader _ => exact hprogress.setReader hreader id
  | unlisten index reader hreader hlistening _ =>
      exact hprogress.setReader hreader fun _ => by simp [hlistening]
  | interrupt index reader hreader => exact hprogress.setReader hreader id
  | onAbort index reader reason event hreader haborts =>
      have hstage : reader.stage ≠ .counted := by
        cases haborts with
        | listening hlistening _ => simp [hlistening]
        | listens hawaits _ _ => simp [hawaits]
      rw [Read.onAbort]
      split
      · exact hprogress.setReader hreader fun _ => hstage
      · have hset : Progress (read.setReader index { reader with
            signal := some (some reason)
            stage := .unheard }) :=
          hprogress.setReader hreader fun _ => hstage
        refine hset.same (cancel_progress _ _) fun other hother _ => ?_
        rw [cancel_joins] at hother
        exact .inl hother
  | leave index reader hreader _ =>
      have hfewer : Progress { read with readers := read.readers - 1 } :=
        ⟨hprogress.started, hprogress.awaited⟩
      have hset : Progress ({ read with readers := read.readers - 1 }.setReader
          index { reader with waiting := false, result := some reader.ending }) :=
        hfewer.setReader hreader id
      rw [Read.leave]
      split
      · refine hset.same (cancel_progress _ _) fun other hother _ => ?_
        simp only [Read.note, cancel_joins] at hother
        exact .inl hother
      · exact hset.same rfl fun other hother _ => .inl hother

theorem reachable_sound (hreach : sharedRead.Reachable read) :
    Sound read ∧ Progress read := by
  refine hreach.invariant (motive := fun read => Sound read ∧ Progress read) ?_ ?_
  · rintro _ rfl
    exact ⟨sound_init, nofun, fun _ hreader => absurd hreader List.not_mem_nil⟩
  · rintro before event after emitted ⟨hsound, hprogress⟩ hstep
    obtain ⟨found, hfound, ⟨⟩⟩ := Option.map_eq_some_iff.mp hstep
    have hmoves := step_moves hfound
    exact ⟨hsound.moves hmoves, hprogress.moves hmoves⟩

end Progress

/-- How a shared read settles. -/
structure SettlesOnce (read : Read Value Reason) : Prop where
  once : read.notes.countP Note.isEnd ≤ 1
  /-- The owner was told of a read that settled or was cancelled. -/
  told : read.outcome.isSome = true ∨
      read.aborted.isSome = true ∧ read.ending = 0 →
    read.notes.countP Note.isEnd = 1
  endedFirst : EndedFirst read.notes
  counted : read.readers = read.joins.countP Reader.waiting
  /-- Nobody waits for a read that cannot settle any more. -/
  alive : ∀ index reader, read.reader? index = some reader →
    reader.stage ≠ .counted → reader.stage ≠ .started →
    reader.undecided = true → read.running = true
  aborts : ∀ event later, read.step event = some later →
    later.aborted ≠ read.aborted → Justified read event
  alone : ∀ index other reader found reason event,
    read.reader? index = some reader → reader.undecided = true →
    read.reader? other = some found → other ≠ index →
    Aborts reader index reason event →
      ∃ later, read.step event = some later ∧ later.aborted = read.aborted ∧
        later.notes = read.notes ∧
        ∀ final, sharedRead.Leads later final → Leaves final index reason

theorem reachable_settlesOnce {read : Read Value Reason}
    (hreach : sharedRead.Reachable read) : SettlesOnce read := by
  obtain ⟨hsound, hprogress⟩ := reachable_sound hreach
  constructor
  case once =>
    rw [hsound.ends]
    split <;> omega
  case told =>
    intro htold
    have hended : read.ended = true := by
      rcases htold with houtcome | ⟨haborted, hending⟩
      · exact hsound.settled houtcome
      · exact (hsound.cancelled haborted).resolve_right (by omega)
    rw [hsound.ends, if_pos hended]
  case endedFirst => exact hsound.endedFirst
  case counted => exact hsound.counted
  case alive =>
    intro index reader hreader hcounted hstarted hopen
    have hjoined := List.mem_of_getElem? (reader?_eq_some.mp hreader).1
    refine (hprogress.started (hprogress.awaited reader hjoined hcounted)
      ).resolve_right fun houtcome => ?_
    have hover := (hsound.informed reader hjoined).heard houtcome hcounted hstarted
    rw [hopen] at hover
    cases hover
  case aborts =>
    intro event later hstep haborts
    exact hsound.justified (step_moves hstep) haborts
  case alone =>
    intro index other reader found reason event hreader hopen hfound hother
      haborts
    obtain ⟨haborted, hnotes, hleaves⟩ :=
      @Sound.alone _ _ read hsound index other reader found reason hreader hopen
        hfound hother
    exact ⟨_, aborts_step hreader haborts, haborted, hnotes, fun final hleads =>
      hleaves.leads hleads⟩

/-! ## The reads of a request -/

section Coalescing

variable {Key : Type} [DecidableEq Key]
variable {loads later : Loads Key Value Reason}

/-- A live read is in the one map that is in use, under its key. -/
structure Homed (loads : Loads Key Value Reason) : Prop where
  reachable : ∀ (index : ℕ) (load : Load Key Value Reason),
    loads.reads[index]? = some load →
      sharedRead.Reachable load.read
  homes : ∀ (index : ℕ) (load : Load Key Value Reason),
    loads.reads[index]? = some load →
      load.home < loads.maps.length
  opened : ∀ home, loads.current = some home → home < loads.maps.length
  held : ∀ home key (index : ℕ), (loads.map home).get? key = some index →
    loads.current = some home ∧ ∃ load, loads.reads[index]? = some load ∧
      load.key = key ∧ load.home = home ∧ load.read.ended = false
  kept : ∀ (index : ℕ) (load : Load Key Value Reason),
    loads.reads[index]? = some load →
      load.read.ended = false →
      (loads.map load.home).get? load.key = some index

omit [DecidableEq Key] in
theorem map_append (loads : Loads Key Value Reason) (home : ℕ)
    (current : Option ℕ) :
    ({ loads with
      maps := loads.maps ++ [OrderedMap.empty]
      current := current } : Loads Key Value Reason).map home =
        loads.map home := by
  simp only [Loads.map]
  rcases lt_trichotomy home loads.maps.length with hlt | rfl | hgt
  · rw [List.getElem?_append_left hlt]
  · simp
  · rw [List.getElem?_eq_none (by simp; omega),
      List.getElem?_eq_none (by omega)]

omit [DecidableEq Key] in
theorem map_set {maps : List (OrderedMap Key ℕ)} {home : ℕ}
    (hhome : home < maps.length) (changed : OrderedMap Key ℕ)
    (reads : List (Load Key Value Reason)) (current : Option ℕ) (other : ℕ) :
    ({ reads := reads, maps := maps.set home changed, current := current } :
      Loads Key Value Reason).map other =
        if other = home then changed
        else (maps[other]?).getD OrderedMap.empty := by
  simp only [Loads.map]
  split
  case isTrue hsame =>
    rw [hsame, List.getElem?_set_self hhome, Option.getD_some]
  case isFalse hother => rw [List.getElem?_set_ne (Ne.symm hother)]

omit [DecidableEq Key] in
theorem map_none_of_size {map : OrderedMap Key ℕ} (hsize : map.size = 0)
    [DecidableEq Key] (key : Key) : map.get? key = none := by
  rw [OrderedMap.get?_eq_none_iff, OrderedMap.keys,
    List.length_eq_zero_iff.mp hsize]
  exact List.not_mem_nil

/-- Opening a map changes nothing that is held. -/
theorem Homed.openMap (hhomed : Homed loads) :
    Homed loads.openMap.1 ∧ loads.openMap.1.current = some loads.openMap.2 ∧
      loads.openMap.1.reads = loads.reads := by
  rw [Loads.openMap]
  split
  case h_1 home hcurrent => exact ⟨hhomed, hcurrent, rfl⟩
  case h_2 hcurrent =>
  refine ⟨⟨hhomed.reachable, ?_, ?_, ?_, ?_⟩, rfl, rfl⟩
  · intro index load hload
    rw [List.length_append]
    exact (hhomed.homes index load hload).trans_le (Nat.le_add_right _ _)
  · rintro home ⟨⟩
    simp
  · intro home key index hkey
    rw [map_append] at hkey
    have hused := (hhomed.held home key index hkey).1
    rw [hcurrent] at hused
    cases hused
  · intro index load hload hlive
    rw [map_append]
    exact hhomed.kept index load hload hlive

theorem Homed.load {opened : Loads Key Value Reason} (hopened : Homed opened)
    {home : ℕ} (hcurrent : opened.current = some home) (key : Key) :
    Homed (opened.load home key).1 ∧
      ∃ load, (opened.load home key).1.reads[(opened.load home key).2]? =
        some load ∧ load.key = key ∧ load.read.ended = false := by
  have hhome := hopened.opened home hcurrent
  rw [Loads.load]
  split
  case h_1 index hindex =>
    obtain ⟨-, load, hload, hkey, -, hlive⟩ := hopened.held home key index hindex
    exact ⟨hopened, load, hload, hkey, hlive⟩
  case h_2 hnone =>
  have hnew : ∀ index load,
      (opened.reads ++ [{ key := key, home := home, read := .init }])[index]? =
        some load → opened.reads[index]? = some load ∨
          index = opened.reads.length ∧
            load = { key := key, home := home, read := .init } := by
    intro index load hload
    rw [List.getElem?_append] at hload
    split at hload
    case isTrue => exact .inl hload
    case isFalse hlarge =>
      rw [List.getElem?_singleton] at hload
      obtain ⟨hindex, ⟨⟩⟩ := Option.ite_none_right_eq_some.mp hload
      exact .inr ⟨by omega, rfl⟩
  refine ⟨⟨?_, ?_, ?_, ?_, ?_⟩, _, List.getElem?_concat_length, rfl, rfl⟩
  · intro index load hload
    rcases hnew index load hload with hold | ⟨-, rfl⟩
    · exact hopened.reachable index load hold
    · exact .start rfl
  · intro index load hload
    rw [List.length_set]
    rcases hnew index load hload with hold | ⟨-, rfl⟩
    · exact hopened.homes index load hold
    · exact hhome
  · intro other hother
    rw [List.length_set]
    exact hopened.opened other hother
  · intro other known index hknown
    rw [map_set hhome] at hknown
    split at hknown
    case isTrue hsame =>
      subst hsame
      rw [OrderedMap.get?_set] at hknown
      split at hknown
      case isTrue hkey =>
        cases hknown
        exact ⟨hcurrent, _, List.getElem?_concat_length, hkey.symm, rfl, rfl⟩
      case isFalse =>
        obtain ⟨hused, load, hload, hfacts⟩ :=
          hopened.held other known index hknown
        exact ⟨hused, load, (List.getElem?_append_left
          (List.getElem?_eq_some_iff.mp hload).1).trans hload, hfacts⟩
    case isFalse =>
      obtain ⟨hused, load, hload, hfacts⟩ :=
        hopened.held other known index hknown
      exact ⟨hused, load, (List.getElem?_append_left
        (List.getElem?_eq_some_iff.mp hload).1).trans hload, hfacts⟩
  · intro index load hload hlive
    rw [map_set hhome]
    rcases hnew index load hload with hold | ⟨rfl, rfl⟩
    · have hkept := hopened.kept index load hold hlive
      split
      case isTrue hsame =>
        rw [hsame] at hkept
        rw [OrderedMap.get?_set_of_ne _ _ ?_]
        · exact hkept
        · rintro rfl
          rw [hnone] at hkept
          cases hkept
      case isFalse => exact hkept
    · rw [if_pos rfl, OrderedMap.get?_set_self]

theorem Homed.getTools (hhomed : Homed loads) (key : Key) :
    Homed (loads.getTools key).1 ∧
      ∃ load, (loads.getTools key).1.reads[(loads.getTools key).2]? =
        some load ∧ load.key = key ∧ load.read.ended = false := by
  obtain ⟨hopened, hcurrent, -⟩ := hhomed.openMap
  exact hopened.load hcurrent key

omit [DecidableEq Key] in
theorem set_cases {reads : List (Load Key Value Reason)} {index other : ℕ}
    {changed found : Load Key Value Reason}
    (hfound : (reads.set index changed)[other]? = some found) :
    other = index ∧ found = changed ∨
      other ≠ index ∧ reads[other]? = some found := by
  by_cases hsame : other = index
  · subst hsame
    rw [List.getElem?_set_self'] at hfound
    obtain ⟨-, -, rfl⟩ := Option.map_eq_some_iff.mp hfound
    exact .inl ⟨rfl, rfl⟩
  · rw [List.getElem?_set_ne (Ne.symm hsame)] at hfound
    exact .inr ⟨hsame, hfound⟩

/-- A step of a read that tells its owner nothing changes no map. -/
theorem Homed.setRead (hhomed : Homed loads) {index : ℕ}
    {load : Load Key Value Reason} (hload : loads.reads[index]? = some load)
    {read : Read Value Reason} (hread : sharedRead.Reachable read)
    (hended : read.ended = load.read.ended) :
    Homed { loads with
      reads := loads.reads.set index { load with read := read } } := by
  have hindex := (List.getElem?_eq_some_iff.mp hload).1
  constructor
  case reachable =>
    intro other found hfound
    rcases set_cases hfound with ⟨-, rfl⟩ | ⟨-, hbefore⟩
    · exact hread
    · exact hhomed.reachable other found hbefore
  case homes =>
    intro other found hfound
    rcases set_cases hfound with ⟨-, rfl⟩ | ⟨-, hbefore⟩
    · exact hhomed.homes index load hload
    · exact hhomed.homes other found hbefore
  case opened => exact hhomed.opened
  case held =>
    intro home key other hkey
    obtain ⟨hused, before, hbefore, hkeys, hhome, hlive⟩ :=
      hhomed.held home key other hkey
    refine ⟨hused, ?_⟩
    by_cases hsame : other = index
    · subst hsame
      rw [hload] at hbefore
      cases hbefore
      exact ⟨_, List.getElem?_set_self hindex, hkeys, hhome, hended.trans hlive⟩
    · refine ⟨before, ?_, hkeys, hhome, hlive⟩
      rw [List.getElem?_set_ne (Ne.symm hsame)]
      exact hbefore
  case kept =>
    intro other found hfound hlive
    rcases set_cases hfound with ⟨rfl, rfl⟩ | ⟨-, hbefore⟩
    · exact hhomed.kept other load hload (hended.symm.trans hlive)
    · exact hhomed.kept other found hbefore hlive

/-- A read whose owner was told is in no map any more. -/
theorem Homed.evict (hhomed : Homed loads) {index : ℕ}
    {load : Load Key Value Reason} (hload : loads.reads[index]? = some load)
    (hlive : load.read.ended = false) {read : Read Value Reason}
    (hread : sharedRead.Reachable read) (hended : read.ended = true) :
    Homed (Loads.evict { loads with
      reads := loads.reads.set index { load with read := read } } index load) := by
  have hkept := hhomed.kept index load hload hlive
  have hcurrent := (hhomed.held load.home load.key index hkept).1
  have hhome := hhomed.homes index load hload
  have hmap : ({ loads with
      reads := loads.reads.set index { load with read := read } } :
      Loads Key Value Reason).map load.home = loads.map load.home := rfl
  rw [Loads.evict, hmap]
  dsimp only
  rw [if_pos hkept]
  constructor
  case reachable =>
    intro other found hfound
    rcases set_cases hfound with ⟨-, rfl⟩ | ⟨-, hbefore⟩
    · exact hread
    · exact hhomed.reachable other found hbefore
  case homes =>
    intro other found hfound
    rw [List.length_set]
    rcases set_cases hfound with ⟨-, rfl⟩ | ⟨-, hbefore⟩
    · exact hhome
    · exact hhomed.homes other found hbefore
  case opened =>
    intro home hused
    rw [List.length_set]
    split at hused
    · cases hused
    · exact hhomed.opened home hused
  case held =>
    intro home key other hkey
    rw [map_set hhome] at hkey
    have hbefore : (loads.map home).get? key = some other ∧
        ¬(home = load.home ∧ key = load.key) := by
      split at hkey
      case isTrue hsame =>
        rw [OrderedMap.get?_delete] at hkey
        split at hkey
        case isTrue => cases hkey
        case isFalse hother =>
          rw [hsame]
          exact ⟨hkey, fun hboth => hother hboth.2⟩
      case isFalse hother => exact ⟨hkey, fun hboth => hother hboth.1⟩
    obtain ⟨hused, before, hfound, hkeys, hhomes, hstays⟩ :=
      hhomed.held home key other hbefore.1
    have hsame : home = load.home :=
      Option.some.inj (hused.symm.trans hcurrent)
    have hother : other ≠ index := by
      rintro rfl
      rw [hload] at hfound
      cases hfound
      exact hbefore.2 ⟨hsame, hkeys.symm⟩
    refine ⟨?_, before, ?_, hkeys, hhomes, hstays⟩
    · rw [if_neg, hused]
      intro hempty
      rw [if_pos hsame] at hkey
      rw [map_none_of_size hempty key] at hkey
      cases hkey
    · rw [List.getElem?_set_ne (Ne.symm hother)]
      exact hfound
  case kept =>
    intro other found hfound hopen
    rcases set_cases hfound with ⟨-, rfl⟩ | ⟨hother, hbefore⟩
    · rw [hended] at hopen
      cases hopen
    have hstays := hhomed.kept other found hbefore hopen
    rw [map_set hhome]
    split
    case isFalse => exact hstays
    case isTrue hsame =>
      rw [hsame] at hstays
      rw [OrderedMap.get?_delete, if_neg]
      · exact hstays
      · intro hkey
        rw [hkey, hkept] at hstays
        exact hother (Option.some.inj hstays).symm

theorem Homed.stepRead (hhomed : Homed loads) {index : ℕ}
    {event : Event Value Reason} (hstep : loads.stepRead index event = some later) :
    Homed later := by
  obtain ⟨load, hload, hmap⟩ := Option.bind_eq_some_iff.mp hstep
  obtain ⟨read, hread, rfl⟩ := Option.map_eq_some_iff.mp hmap
  have hreachable : sharedRead.Reachable read :=
    (hhomed.reachable index load hload).next event
      (Option.map_eq_some_iff.mpr ⟨read, hread, rfl⟩)
  dsimp only
  split
  case isTrue htold =>
    rw [Bool.and_eq_true, Bool.not_eq_true'] at htold
    exact hhomed.evict hload htold.2 hreachable htold.1
  case isFalse hquiet =>
    refine hhomed.setRead hload hreachable ?_
    rw [Bool.and_eq_true, Bool.not_eq_true'] at hquiet
    have hends := ended_of_moves (step_moves hread)
    cases hbefore : load.read.ended with
    | true => exact hends hbefore
    | false =>
        rw [hbefore] at hquiet
        exact Bool.eq_false_iff.mpr fun htrue => hquiet ⟨htrue, rfl⟩

theorem reachable_homed (hreach : coalescing.Reachable loads) :
    Homed loads := by
  refine hreach.invariant (motive := Homed) ?_ ?_
  · rintro _ rfl
    exact ⟨nofun, nofun, nofun, nofun, nofun⟩
  · intro before event after emitted hbefore hstep
    cases event with
    | getTools key =>
        cases hstep
        exact (hbefore.getTools key).1
    | read index event =>
        obtain ⟨found, hfound, ⟨⟩⟩ := Option.map_eq_some_iff.mp hstep
        exact hbefore.stepRead hfound

/-- How a request's catalog reads are shared. -/
structure Coalesces (loads : Loads Key Value Reason) : Prop where
  settles : ∀ (index : ℕ) (load : Load Key Value Reason),
    loads.reads[index]? = some load → SettlesOnce load.read
  /-- A caller joins a read its owner has heard nothing of. -/
  joinable : ∀ key, ∃ load,
    (loads.getTools key).1.reads[(loads.getTools key).2]? = some load ∧
      load.key = key ∧ load.read.ended = false
  /-- Two reads of one key are not under way together. -/
  alone : ∀ (index other : ℕ) (load found : Load Key Value Reason),
    loads.reads[index]? = some load → loads.reads[other]? = some found →
    load.key = found.key → load.read.ended = false →
    found.read.ended = false → index = other

theorem Homed.coalesces (hhomed : Homed loads) : Coalesces loads where
  settles := fun index load hload =>
    reachable_settlesOnce (hhomed.reachable index load hload)
  joinable := fun key => (hhomed.getTools key).2
  alone := by
    intro index other load found hload hfound hkey hlive hopen
    have hfirst := hhomed.kept index load hload hlive
    have hsecond := hhomed.kept other found hfound hopen
    have hhome : load.home = found.home := Option.some.inj
      ((hhomed.held _ _ _ hfirst).1.symm.trans (hhomed.held _ _ _ hsecond).1)
    rw [hhome, hkey, hsecond] at hfirst
    exact (Option.some.inj hfirst).symm

end Coalescing

/-- Shared catalog reads settle once: in every run of one shared read, and of
the reads that one request coalesces by their keys. -/
theorem reads_settle_once {Key : Type} [DecidableEq Key] :
    (∀ read : Read Value Reason, sharedRead.Reachable read → SettlesOnce read) ∧
      ∀ loads : Loads Key Value Reason, coalescing.Reachable loads →
        Coalesces loads :=
  ⟨fun _ hreach => reachable_settlesOnce hreach,
    fun _ hreach => (reachable_homed hreach).coalesces⟩

/-- Two readers join, the first aborts and fails alone, and the other hears what
the read settled with. -/
theorem reads_settle_once_aborted :
    ∃ read : Read Bool ℕ, SettlesOnce read ∧
      read.notes = [.onEnd true, .settles (.success true),
        .returns 0 (.left 7), .returns 1 (.answer (.success true))] := by
  obtain ⟨read, hread, hnotes⟩ : ∃ read : Read Bool ℕ,
      sharedRead.Reachable read ∧ read.notes = [.onEnd true,
        .settles (.success true), .returns 0 (.left 7),
        .returns 1 (.answer (.success true))] :=
    ⟨_, ⟨_, Machine.Run.execute (.start rfl)
      [.join (some none), .start 0, .await 0, .listen 0, .join none, .start 1,
        .await 1, .abort 0 7, .settle (.success true), .leave 0, .leave 1] rfl⟩,
      rfl⟩
  exact ⟨read, (@reads_settle_once Bool ℕ Unit _).1 read hread, hnotes⟩

end Connecta.SharedRead
