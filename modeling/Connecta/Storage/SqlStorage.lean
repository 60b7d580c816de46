import Connecta.Foundation.OrderedMap
import Connecta.Runtime.Json
import Connecta.Storage.KeyValue

/-!
# The SQL store

One table of rows, each statement atomic.  Text is kept as its UTF-8 bytes, the
database's clock creates and checks each expiry, and an expired row stays until
a write's sweep removes it.
-/

namespace Connecta.Storage

open Connecta.Foundation
open Connecta.Runtime

structure Row where
  value : List ℕ
  expiresAtMs : Option Number
  deriving DecidableEq

/-- The primary key is the key's bytes. -/
abbrev Table := OrderedMap (List ℕ) Row

/-- What the store takes of a database and of its driver. -/
structure Driver where
  /-- The string a text result is read as. -/
  text : List ℕ → JsString
  /-- Some end a text at its first NUL. -/
  text_utf8 : ∀ value : JsString, value.wellFormed = true →
    text value.utf8 = value ∨ text value.utf8 = value.takeWhile (· ≠ 0)
  /-- The order a query without an order visits the rows in. -/
  order : List (List ℕ × Row) → List (List ℕ × Row)
  perm : ∀ rows, (order rows).Perm rows

def GET_MANY_KEYS : ℕ := 64

def SWEEP_ROWS : ℕ := 16

namespace Row

/-- `expires_at_ms IS NULL OR expires_at_ms > now` -/
def live (now : Reading) (row : Row) : Bool :=
  row.expiresAtMs.all fun instant => !instant.reached now.instant

/-- `expires_at_ms <= now` -/
def expired (now : Reading) (row : Row) : Bool :=
  row.expiresAtMs.any (Number.reached now.instant)

end Row

/-! ## Expiry options -/

def ttlMillis (ttlSeconds : Option Number) : Except Thrown (Option Number) :=
  match ttlSeconds with
  | none => .ok none
  | some ttl =>
      if ttl = .finite 0 then .ok none
      else if !ttl.isFinite || !(ttl.times 1000).isFinite then
        .error invalidTtl
      else .ok (some (ttl.times 1000).ceil)

/-- A bound value, and whether its expression adds the database's clock. -/
structure Expiry where
  value : Option Number
  relative : Bool

def expiryOptions (options : WriteOptions) : Except Thrown Expiry :=
  match options.expiresAtMs with
  | some instant =>
      if !instant.isSafeInteger || options.ttlSeconds.isSome then
        .error invalidInstant
      else .ok ⟨some instant, false⟩
  | none => (ttlMillis options.ttlSeconds).map fun value => ⟨value, true⟩

/-- The column a statement stores. -/
def Expiry.column (now : Reading) (expiry : Expiry) : Option Number :=
  if expiry.relative then expiry.value.map (Number.plus now.instant)
  else expiry.value

/-! ## Statements -/

section Statements

variable (driver : Driver) (now : Reading)

def expirySweep (table : Table) : Table :=
  ((driver.order (table.entries.filter fun row => row.2.expired now)).take
    SWEEP_ROWS).foldl (fun table row => table.delete row.1) table

/-- `INSERT … ON CONFLICT DO UPDATE` -/
def upsert (key value : JsString) (expiry : Expiry) (table : Table) :
    ℕ × Table :=
  (1, table.set key.utf8 ⟨value.utf8, expiry.column now⟩)

/-- An upsert whose update asks for an expired row. -/
def takeOver (key value : JsString) (expiry : Expiry) (table : Table) :
    ℕ × Table :=
  match table.get? key.utf8 with
  | none => upsert now key value expiry table
  | some row =>
      if row.expired now then upsert now key value expiry table else (0, table)

/-- Whether the row of a key is live and holds a value. -/
def holds (key expected : JsString) (table : Table) : Bool :=
  (table.get? key.utf8).any fun row =>
    row.live now && row.value = expected.utf8

def updateLive (key expected value : JsString) (expiry : Expiry)
    (table : Table) : ℕ × Table :=
  if holds now key expected table then upsert now key value expiry table
  else (0, table)

def deleteLive (key expected : JsString) (table : Table) : ℕ × Table :=
  if holds now key expected table then (1, table.delete key.utf8)
  else (0, table)

/-- A batch of the sweep and one statement, whose changes decide. -/
def runCas (statement : Table → ℕ × Table) (table : Table) : ℕ × Table :=
  statement (expirySweep driver now table)

/-- A text column beside its bytes, which are there when they hold a NUL. -/
def textColumn (bytes : List ℕ) : JsString × Option (List ℕ) :=
  (driver.text bytes, if 0 ∈ bytes then some bytes else none)

/-- The name an error gives to a stored value. -/
def storedValueOf (key : JsString) : JsString :=
  JsString.ofAscii "the stored value of " ++ Json.quote key

def textOf (column : JsString × Option (List ℕ)) (what : JsString) :
    Except Thrown JsString :=
  match column.2 with
  | none => .ok column.1
  | some bytes =>
      match decodeText bytes with
      | some text => .ok text
      | none => .error (.typeError
          (what ++ JsString.ofAscii " is not valid UTF-8"))

/-- `substr(bytes, 1, count)`, which is null of no bytes. -/
def substrBlob (bytes : List ℕ) (count : ℕ) : Option (List ℕ) :=
  if bytes = [] then none else some (bytes.take count)

/-! ## Methods -/

def current (key : JsString) (table : Table) :
    Except Thrown (Option JsString) :=
  match table.get? key.utf8 with
  | none => .ok none
  | some row =>
      if row.live now then
        (textOf (textColumn driver row.value) (storedValueOf key)).map some
      else .ok none

/-- The rows one statement of `getMany` finds, each by its position. -/
def readBatch (table : Table) :
    ℕ → List JsString → List (Option JsString) →
      Except Thrown (List (Option JsString))
  | _, [], values => .ok values
  | position, key :: rest, values => do
      let found ← current driver now key table
      readBatch table (position + 1) rest
        (if found.isSome then values.set position found else values)

def readBatches (table : Table) (keys : List JsString) (offset : ℕ)
    (values : List (Option JsString)) :
    Except Thrown (List (Option JsString)) :=
  if offset < keys.length then
    match readBatch driver now table offset
        ((keys.drop offset).take GET_MANY_KEYS) values with
    | .error thrown => .error thrown
    | .ok read => readBatches table keys (offset + GET_MANY_KEYS) read
  else .ok values
termination_by keys.length - offset
decreasing_by
  rw [GET_MANY_KEYS]
  omega

/-- The rows of `list`: their keys start with the bytes, and are live. -/
def listed (start : JsString) (row : List ℕ × Row) : Bool :=
  start.utf8 ≤ row.1 &&
    substrBlob row.1 start.utf8.length = some start.utf8 && row.2.live now

def SqlStore.set (key value : JsString) (options : WriteOptions)
    (table : Table) : Except Thrown Unit × Table :=
  match validateStorageKey key, expiryOptions options with
  | .error thrown, _ => (.error thrown, table)
  | .ok _, .error thrown => (.error thrown, table)
  | .ok _, .ok expiry =>
      (.ok (),
        (upsert now key value expiry (expirySweep driver now table)).2)

def SqlStore.setMany (entries : List (JsString × JsString))
    (options : WriteOptions) (table : Table) : Except Thrown Unit × Table :=
  if 64 < entries.length then (.error tooManyRows, table)
  else
    match entries.forM fun entry => validateStorageKey entry.1,
      expiryOptions options with
    | .error thrown, _ => (.error thrown, table)
    | .ok _, .error thrown => (.error thrown, table)
    | .ok _, .ok expiry =>
        if entries = [] then (.ok (), table)
        else
          (.ok (), entries.foldl
            (fun table entry => (upsert now entry.1 entry.2 expiry table).2)
            (expirySweep driver now table))

def SqlStore.compareAndSet (key : JsString) (expected next : Option JsString)
    (options : WriteOptions) (table : Table) : Except Thrown Bool × Table :=
  match validateStorageKey key with
  | .error thrown => (.error thrown, table)
  | .ok _ =>
      match next, expected with
      | none, none =>
          ((current driver now key table).map fun found => found = none, table)
      | none, some value =>
          let changed := runCas driver now (deleteLive now key value) table
          (.ok (0 < changed.1), changed.2)
      | some value, _ =>
          match expiryOptions options with
          | .error thrown =>
              match current driver now key table with
              | .error unread => (.error unread, table)
              | .ok found =>
                  if found ≠ expected then (.ok false, table)
                  else (.error thrown, table)
          | .ok expiry =>
              let changed := runCas driver now
                (match expected with
                  | none => takeOver now key value expiry
                  | some stored => updateLive now key stored value expiry) table
              (.ok (0 < changed.1), changed.2)

def SqlStore.getMany (keys : List JsString) (table : Table) :
    Except Thrown (List (Option JsString)) :=
  match keys.forM validateStorageKey with
  | .error thrown => .error thrown
  | .ok _ =>
      if keys = [] then .ok []
      else readBatches driver now table keys 0 (keys.map fun _ => none)

def SqlStore.perform : Operation → Table → Except Thrown Answer × Table
  | .get key, table =>
      match validateStorageKey key with
      | .error thrown => (.error thrown, table)
      | .ok _ => ((current driver now key table).map Answer.value, table)
  | .set key value options, table =>
      (SqlStore.set driver now key value options table).map
        (·.map fun _ => Answer.done) id
  | .delete key, table =>
      match validateStorageKey key with
      | .error thrown => (.error thrown, table)
      | .ok _ => (.ok .done, table.delete key.utf8)
  | .list start, table =>
      match validateStorageKey start with
      | .error thrown => (.error thrown, table)
      | .ok _ =>
          (.ok (.keys (sortKeys
            ((driver.order (table.entries.filter (listed now start))).map
              fun row => driver.text row.1))), table)
  | .compareAndSet key expected next options, table =>
      (SqlStore.compareAndSet driver now key expected next options table).map
        (·.map Answer.swapped) id
  | .getMany keys, table =>
      ((SqlStore.getMany driver now keys table).map Answer.values, table)
  | .setMany entries options, table =>
      (SqlStore.setMany driver now entries options table).map
        (·.map fun _ => Answer.done) id

end Statements

/-- What a reader of the table finds, expired rows or not. -/
def SqlStore.contents (table : Table) : Contents := fun reading key =>
  (table.get? key.utf8).bind fun row =>
    if row.live reading then decodeText row.value else none

namespace SqlStore

/-! ## Rows -/

/-- Every row was written: its key and its value are the bytes of text. -/
structure Encoded (table : Table) : Prop where
  key : ∀ bytes row, table.get? bytes = some row → ∃ key : JsString,
    key.wellFormed = true ∧ key ≠ [] ∧ 0 ∉ key ∧ bytes = key.utf8
  value : ∀ bytes row, table.get? bytes = some row → ∃ value : JsString,
    value.wellFormed = true ∧ row.value = value.utf8

theorem encoded_empty : Encoded OrderedMap.empty := by
  constructor
  · intro bytes row hrow
    cases hrow
  · intro bytes row hrow
    cases hrow

theorem live_eq (now : Reading) (row : Row) :
    row.live now = !row.expired now := by
  rw [Row.live, Row.expired]
  cases row.expiresAtMs <;> rfl

theorem expired_later {now reading : Reading} {row : Row}
    (hlater : now.instant ≤ reading.instant) (hexpired : row.expired now = true) :
    row.expired reading = true := by
  obtain ⟨instant, hinstant, hreached⟩ := (Option.any_eq_true _ _).mp hexpired
  exact (Option.any_eq_true _ _).mpr
    ⟨instant, hinstant, Number.reached_mono hlater hreached⟩

/-- A driver's text is the string, its NULs apart. -/
theorem text_of_zero_notMem (driver : Driver) {value : JsString}
    (hvalue : value.wellFormed = true) (hnul : 0 ∉ value) :
    driver.text value.utf8 = value := by
  cases driver.text_utf8 value hvalue with
  | inl htext => exact htext
  | inr htext =>
      rw [htext, List.takeWhile_eq_self_iff]
      intro unit hunit
      exact decide_eq_true fun hzero => hnul (hzero ▸ hunit)

/-- A text column reads as the string that was written. -/
theorem textOf_textColumn (driver : Driver) {value : JsString}
    (hvalue : value.wellFormed = true) (what : JsString) :
    textOf (textColumn driver value.utf8) what = .ok value := by
  rw [textOf, textColumn]
  by_cases hnul : 0 ∈ value.utf8
  · simp only [if_pos hnul, decodeText_utf8 hvalue]
  · simp only [if_neg hnul]
    rw [text_of_zero_notMem driver hvalue fun hmem => hnul (zero_mem_utf8 hmem)]

section Reads

variable {driver : Driver} {now : Reading} {table : Table}

theorem current_eq (hencoded : Encoded table) (key : JsString) :
    current driver now key table = .ok (contents table now key) := by
  rw [current, contents]
  cases hrow : table.get? key.utf8 with
  | none => rfl
  | some row =>
      obtain ⟨value, hvalue, hbytes⟩ := hencoded.value _ row hrow
      simp only [Option.bind_some]
      by_cases hlive : row.live now = true
      · rw [if_pos hlive, if_pos hlive, hbytes, textOf_textColumn driver hvalue,
          decodeText_utf8 hvalue]
        rfl
      · rw [if_neg hlive, if_neg hlive]

theorem contents_eq_some (hencoded : Encoded table) {key value : JsString}
    (hvalue : value.wellFormed = true) :
    contents table now key = some value ↔ holds now key value table = true := by
  rw [contents, holds]
  cases hrow : table.get? key.utf8 with
  | none => simp
  | some row =>
      obtain ⟨stored, hstored, hbytes⟩ := hencoded.value _ row hrow
      simp only [Option.bind_some, Option.any_some, Bool.and_eq_true,
        decide_eq_true_eq]
      by_cases hlive : row.live now = true
      · rw [if_pos hlive, hbytes, decodeText_utf8 hstored, Option.some_inj]
        constructor
        · rintro rfl
          exact ⟨hlive, rfl⟩
        · exact fun hsame => utf8_injective hstored hvalue hsame.2
      · rw [if_neg hlive]
        simp [hlive]

theorem contents_eq_none (hencoded : Encoded table) (key : JsString) :
    contents table now key = none ↔
      ∀ row, table.get? key.utf8 = some row → row.expired now = true := by
  rw [contents]
  cases hrow : table.get? key.utf8 with
  | none => simp
  | some row =>
      obtain ⟨stored, hstored, hbytes⟩ := hencoded.value _ row hrow
      simp only [Option.bind_some, Option.some_inj, forall_eq']
      rw [live_eq, hbytes, decodeText_utf8 hstored]
      cases row.expired now <;> simp

/-! ## Reading several keys -/

/-- Each statement answers its own positions. -/
theorem readBatch_eq (hencoded : Encoded table) (batch done rest : List JsString) :
    readBatch driver now table done.length batch
        (done.map (contents table now) ++ batch.map (fun _ => none) ++
          rest.map fun _ => none) =
      .ok ((done ++ batch).map (contents table now) ++
        rest.map fun _ => none) := by
  induction batch generalizing done with
  | nil =>
      rw [readBatch, List.map_nil, List.append_nil, List.append_nil]
  | cons key others ih =>
      have hvalues : (if (contents table now key).isSome then
            (done.map (contents table now) ++
              (key :: others).map (fun _ => none) ++
              rest.map fun _ => none).set done.length (contents table now key)
          else done.map (contents table now) ++
            (key :: others).map (fun _ => none) ++ rest.map fun _ => none) =
          (done ++ [key]).map (contents table now) ++
            others.map (fun _ => none) ++ rest.map fun _ => none := by
        cases hfound : contents table now key with
        | none => simp [hfound]
        | some value => simp [hfound]
      have hlater := ih (done ++ [key])
      rw [List.length_append, List.length_singleton] at hlater
      rw [readBatch, current_eq hencoded]
      simp only [bind, Except.bind]
      rw [hvalues, hlater, List.append_assoc, List.singleton_append]

theorem readBatches_eq (hencoded : Encoded table) (keys : List JsString) :
    ∀ (count : ℕ) (done rest : List JsString), done ++ rest = keys →
      rest.length ≤ count →
      readBatches driver now table keys done.length
          (done.map (contents table now) ++ rest.map fun _ => none) =
        .ok (keys.map (contents table now)) := by
  intro count
  induction count with
  | zero =>
      intro done rest hkeys hrest
      rw [List.length_eq_zero_iff.mp (Nat.le_zero.mp hrest)] at hkeys ⊢
      rw [List.append_nil] at hkeys
      rw [readBatches, hkeys, if_neg (lt_irrefl _), List.map_nil,
        List.append_nil]
  | succ count ih =>
      intro done rest hkeys hrest
      rw [readBatches]
      split
      case isTrue hmore =>
        have hrow : (keys.drop done.length).take GET_MANY_KEYS =
            rest.take GET_MANY_KEYS := by
          rw [← hkeys, List.drop_left]
        have hvalues : rest.map (fun _ => (none : Option JsString)) =
            (rest.take GET_MANY_KEYS).map (fun _ => none) ++
              (rest.drop GET_MANY_KEYS).map fun _ => none := by
          rw [← List.map_append, List.take_append_drop]
        rw [hrow, hvalues, ← List.append_assoc, readBatch_eq hencoded]
        dsimp only
        by_cases hfull : GET_MANY_KEYS ≤ rest.length
        · have hlength : (done ++ rest.take GET_MANY_KEYS).length =
              done.length + GET_MANY_KEYS := by
            rw [List.length_append, List.length_take, min_eq_left hfull]
          rw [← hlength]
          apply ih
          · rw [List.append_assoc, List.take_append_drop, hkeys]
          · rw [List.length_drop]
            have hpositive : 0 < GET_MANY_KEYS := by decide
            omega
        · have hall : rest.take GET_MANY_KEYS = rest :=
            List.take_of_length_le (not_le.mp hfull).le
          have hnone : rest.drop GET_MANY_KEYS = [] :=
            List.drop_of_length_le (not_le.mp hfull).le
          rw [hall, hnone, List.map_nil, List.append_nil, hkeys, readBatches,
            if_neg]
          rw [← hkeys, List.length_append]
          omega
      case isFalse hlast =>
        have hnil : rest = [] := by
          rw [← List.length_eq_zero_iff]
          rw [← hkeys, List.length_append] at hlast
          omega
        rw [hnil, List.append_nil] at hkeys
        rw [hnil, hkeys, List.map_nil, List.append_nil]

theorem getMany_eq (hencoded : Encoded table) (keys : List JsString) :
    getMany driver now keys table = (keys.forM validateStorageKey).map
      fun _ => keys.map (contents table now) := by
  rw [getMany]
  cases keys.forM validateStorageKey with
  | error thrown => rfl
  | ok =>
      by_cases hnil : keys = []
      · rw [hnil]
        rfl
      · simp only [if_neg hnil]
        exact readBatches_eq hencoded keys keys.length [] keys rfl le_rfl

/-! ## Listing -/

theorem listed_iff {start key : JsString} {row : Row}
    (hstart : start.wellFormed = true) (hkey : key.wellFormed = true)
    (hne : key ≠ []) :
    listed now start (key.utf8, row) = true ↔
      start <+: key ∧ row.live now = true := by
  rw [listed, Bool.and_eq_true, Bool.and_eq_true, decide_eq_true_eq,
    decide_eq_true_eq, substrBlob, if_neg (utf8_ne_nil hkey hne),
    Option.some_inj, ← utf8_isPrefix hstart hkey, List.prefix_iff_eq_take]
  constructor
  · exact fun hlisted => ⟨hlisted.1.2.symm, hlisted.2⟩
  · rintro ⟨hstart, hlive⟩
    have hbegins : start.utf8 <+: key.utf8 := List.prefix_iff_eq_take.mpr hstart
    exact ⟨⟨not_lt.mp hbegins.le, hstart.symm⟩, hlive⟩

/-- The keys of the rows that `list` selects. -/
theorem lists_rows (hencoded : Encoded table) {start : JsString}
    (hstart : start.wellFormed = true) :
    Lists now (contents table) start (sortKeys
      ((driver.order (table.entries.filter (listed now start))).map
        fun row => driver.text row.1)) := by
  have hrows := driver.perm (table.entries.filter (listed now start))
  have hmem : ∀ row, row ∈ driver.order (table.entries.filter (listed now start)) ↔
      table.get? row.1 = some row.2 ∧ listed now start row = true := by
    intro row
    rw [hrows.mem_iff, List.mem_filter, OrderedMap.get?_eq_some_iff]
  have htext : ∀ row ∈ driver.order (table.entries.filter (listed now start)),
      (driver.text row.1).utf8 = row.1 := by
    intro row hrow
    obtain ⟨key, hkey, -, hnul, hbytes⟩ :=
      hencoded.key row.1 row.2 ((hmem row).mp hrow).1
    rw [hbytes, text_of_zero_notMem driver hkey hnul]
  generalize driver.order (table.entries.filter (listed now start)) = rows
    at hrows hmem htext ⊢
  have hperm := List.mergeSort_perm (rows.map fun row => driver.text row.1)
    (fun left right => decide (left ≤ right))
  refine ⟨sortKeys_pairwise _, ?_, ?_⟩
  · rw [sortKeys, hperm.nodup_iff]
    apply List.Nodup.of_map JsString.utf8
    have hkeys : (rows.map fun row => driver.text row.1).map JsString.utf8 =
        rows.map Prod.fst := by
      rw [List.map_map]
      exact List.map_congr_left htext
    rw [hkeys, (hrows.map Prod.fst).nodup_iff]
    exact table.nodup.sublist (List.filter_sublist.map _)
  · intro key
    rw [sortKeys, hperm.mem_iff, List.mem_map]
    constructor
    · rintro ⟨row, hrow, rfl⟩
      obtain ⟨hget, hlisted⟩ := (hmem row).mp hrow
      obtain ⟨key, hkey, hne, hnul, hbytes⟩ := hencoded.key row.1 row.2 hget
      have hread := text_of_zero_notMem driver hkey hnul
      obtain ⟨bytes, row⟩ := row
      dsimp only at hget hbytes ⊢
      subst hbytes
      obtain ⟨hbegins, hlive⟩ := (listed_iff hstart hkey hne).mp hlisted
      obtain ⟨value, hvalue, hstored⟩ := hencoded.value _ row hget
      rw [hread, contents, hget, Option.bind_some, if_pos hlive, hstored,
        decodeText_utf8 hvalue]
      exact ⟨hkey, hbegins, rfl⟩
    · rintro ⟨hkey, hbegins, hfound⟩
      obtain ⟨value, hvalue⟩ := Option.isSome_iff_exists.mp hfound
      obtain ⟨row, hget, hlive⟩ := Option.bind_eq_some_iff.mp hvalue
      obtain ⟨stored, hstored, hne, hnul, hbytes⟩ := hencoded.key _ row hget
      have hsame := utf8_injective hkey hstored hbytes
      subst hsame
      refine ⟨(key.utf8, row), (hmem _).mpr ⟨hget, ?_⟩,
        text_of_zero_notMem driver hkey hnul⟩
      refine (listed_iff hstart hkey hne).mpr ⟨hbegins, ?_⟩
      by_contra hdead
      rw [if_neg hdead] at hlive
      cases hlive

end Reads

/-! ## Writes -/

section Writes

variable {driver : Driver} {now : Reading} {table : Table}

theorem get?_deleteAll (rows : List (List ℕ × Row)) (table : Table)
    (bytes : List ℕ) :
    (rows.foldl (fun table row => table.delete row.1) table).get? bytes =
      if bytes ∈ rows.map Prod.fst then none else table.get? bytes := by
  induction rows generalizing table with
  | nil => rfl
  | cons row rest ih =>
      rw [List.foldl_cons, ih, OrderedMap.get?_delete, List.map_cons]
      by_cases hrest : bytes ∈ rest.map Prod.fst
      · rw [if_pos hrest, if_pos (List.mem_cons_of_mem _ hrest)]
      · by_cases hfirst : bytes = row.1
        · rw [if_neg hrest, if_pos hfirst, if_pos]
          exact hfirst ▸ List.mem_cons_self
        · rw [if_neg hrest, if_neg hfirst, if_neg]
          simp only [List.mem_cons, hfirst, hrest, or_self, not_false_eq_true]

/-- Of each key, the row is left, or nothing of an expired one. -/
theorem get?_deleteExpired {rows : List (List ℕ × Row)}
    (hexpired : ∀ row ∈ rows, row ∈ table.entries ∧ row.2.expired now = true)
    (bytes : List ℕ) :
    (rows.foldl (fun table row => table.delete row.1) table).get? bytes =
        table.get? bytes ∨
      (rows.foldl (fun table row => table.delete row.1) table).get? bytes = none ∧
        ∃ row, table.get? bytes = some row ∧ row.expired now = true := by
  rw [get?_deleteAll]
  split
  case isFalse => exact .inl rfl
  case isTrue hdeleted =>
    obtain ⟨row, hrow, rfl⟩ := List.mem_map.mp hdeleted
    obtain ⟨hentry, hexp⟩ := hexpired row hrow
    exact .inr ⟨rfl, row.2, OrderedMap.get?_eq_some_iff.mpr hentry, hexp⟩

/-- No reader misses the rows that had expired. -/
theorem deleteExpired_agree {rows : List (List ℕ × Row)}
    (hexpired : ∀ row ∈ rows, row ∈ table.entries ∧ row.2.expired now = true) :
    Agree now (contents table)
      (contents (rows.foldl (fun table row => table.delete row.1) table)) := by
  intro reading hlater key _
  simp only [contents]
  rcases get?_deleteExpired hexpired key.utf8 with
    hsame | ⟨hnone, row, hrow, hexp⟩
  · rw [hsame]
  · rw [hnone, hrow, Option.bind_some, live_eq, expired_later hlater hexp]
    rfl

theorem deleteExpired_encoded {rows : List (List ℕ × Row)}
    (hexpired : ∀ row ∈ rows, row ∈ table.entries ∧ row.2.expired now = true)
    (hencoded : Encoded table) :
    Encoded (rows.foldl (fun table row => table.delete row.1) table) := by
  have hkept : ∀ bytes row,
      (rows.foldl (fun table row => table.delete row.1) table).get? bytes =
          some row → table.get? bytes = some row := by
    intro bytes row hrow
    rcases get?_deleteExpired hexpired bytes with hsame | ⟨hnone, -⟩
    · rw [← hsame, hrow]
    · rw [hnone] at hrow
      cases hrow
  exact ⟨fun bytes row hrow => hencoded.key bytes row (hkept bytes row hrow),
    fun bytes row hrow => hencoded.value bytes row (hkept bytes row hrow)⟩

theorem mem_swept {driver : Driver} {row : List ℕ × Row}
    (hrow : row ∈ (driver.order (table.entries.filter fun row =>
      row.2.expired now)).take SWEEP_ROWS) :
    row ∈ table.entries ∧ row.2.expired now = true :=
  List.mem_filter.mp ((driver.perm _).mem_iff.mp (List.mem_of_mem_take hrow))

theorem expirySweep_agree (driver : Driver) (now : Reading) (table : Table) :
    Agree now (contents table) (contents (expirySweep driver now table)) :=
  deleteExpired_agree fun _ => mem_swept

theorem expirySweep_encoded (hencoded : Encoded table) :
    Encoded (expirySweep driver now table) :=
  deleteExpired_encoded (fun _ => mem_swept) hencoded

theorem delete_agree {key : JsString} (hkey : key.wellFormed = true) :
    Agree now ((contents table).put key none)
      (contents (table.delete key.utf8)) := by
  intro reading _ other hother
  simp only [contents, OrderedMap.get?_delete, Contents.put,
    Function.update_apply]
  by_cases hsame : other = key
  · rw [if_pos hsame, if_pos (congrArg JsString.utf8 hsame)]
    rfl
  · rw [if_neg hsame, if_neg fun hbytes =>
      hsame (utf8_injective hother hkey hbytes)]

theorem delete_encoded (hencoded : Encoded table) (bytes : List ℕ) :
    Encoded (table.delete bytes) := by
  have hkept : ∀ other row, (table.delete bytes).get? other = some row →
      table.get? other = some row := by
    intro other row hrow
    rw [OrderedMap.get?_delete] at hrow
    split at hrow
    · cases hrow
    · exact hrow
  exact ⟨fun other row hrow => hencoded.key other row (hkept other row hrow),
    fun other row hrow => hencoded.value other row (hkept other row hrow)⟩

theorem upsert_agree {key value : JsString} {expiry : Expiry}
    {instant : Option ℚ} (hends : Ends (expiry.column now) instant)
    (hkey : key.wellFormed = true) (hvalue : value.wellFormed = true) :
    Agree now ((contents table).put key (some (value, instant)))
      (contents (upsert now key value expiry table).2) := by
  intro reading _ other hother
  simp only [contents, upsert, OrderedMap.get?_set, Contents.put,
    Function.update_apply]
  by_cases hsame : other = key
  · rw [if_pos hsame, if_pos (congrArg JsString.utf8 hsame), Option.bind_some,
      Option.bind_some, live_eq, Row.expired, hends reading, Bool.not_not,
      decodeText_utf8 hvalue]
  · rw [if_neg hsame, if_neg fun hbytes =>
      hsame (utf8_injective hother hkey hbytes)]

theorem upsert_encoded (hencoded : Encoded table) {key value : JsString}
    (expiry : Expiry) (hkey : key.wellFormed = true) (hne : key ≠ [])
    (hnul : 0 ∉ key) (hvalue : value.wellFormed = true) :
    Encoded (upsert now key value expiry table).2 := by
  constructor
  · intro bytes row hrow
    rw [upsert, OrderedMap.get?_set] at hrow
    split at hrow
    case isTrue hsame => exact ⟨key, hkey, hne, hnul, hsame⟩
    case isFalse => exact hencoded.key bytes row hrow
  · intro bytes row hrow
    rw [upsert, OrderedMap.get?_set] at hrow
    split at hrow
    case isTrue =>
      refine ⟨value, hvalue, ?_⟩
      rw [← Option.some.inj hrow]
    case isFalse => exact hencoded.value bytes row hrow

/-- A bound expiry is the deadline's, or its failure. -/
theorem expiryOptions_deadline (now : Reading) (options : WriteOptions) :
    (∃ thrown, deadline now options = .error thrown ∧
        expiryOptions options = .error thrown) ∨
      ∃ instant expiry, deadline now options = .ok instant ∧
        expiryOptions options = .ok expiry ∧
        Ends (expiry.column now) instant := by
  obtain ⟨ttlSeconds, expiresAtMs⟩ := options
  cases expiresAtMs with
  | some instant =>
      cases ttlSeconds with
      | some ttl => cases instant <;> exact .inl ⟨invalidInstant, rfl, by
          simp [expiryOptions]⟩
      | none =>
          cases instant with
          | nan => exact .inl ⟨invalidInstant, rfl, rfl⟩
          | infinite negative => exact .inl ⟨invalidInstant, rfl, rfl⟩
          | finite instant =>
              by_cases hsafe : (Number.finite instant).isSafeInteger = true
              · refine .inr ⟨some instant, ⟨some (.finite instant), false⟩, ?_,
                  ?_, ends_instant instant⟩
                · simp [deadline, hsafe]
                · simp [expiryOptions, hsafe]
              · refine .inl ⟨invalidInstant, ?_, ?_⟩
                · simp [deadline, hsafe]
                · simp [expiryOptions, hsafe]
  | none =>
      cases ttlSeconds with
      | none => exact .inr ⟨none, ⟨none, true⟩, rfl, rfl, ends_never⟩
      | some ttl =>
          cases ttl with
          | nan => exact .inl ⟨invalidTtl, rfl, rfl⟩
          | infinite negative => exact .inl ⟨invalidTtl, rfl, rfl⟩
          | finite ttl =>
              by_cases hzero : ttl = 0
              · subst hzero
                refine .inr ⟨none, ⟨none, true⟩, ?_, rfl, ends_never⟩
                simp [deadline, Number.times_zero]
              · cases hmillis : (Number.finite ttl).times 1000 with
                | nan => exact absurd hmillis (Number.ofRat_ne_nan _)
                | infinite negative =>
                    refine .inl ⟨invalidTtl, ?_, ?_⟩
                    · simp [deadline, hmillis]
                    · simp [expiryOptions, ttlMillis, hzero, hmillis,
                        Number.isFinite, Except.map]
                | finite millis =>
                    refine .inr ⟨some (now.instant + millis),
                      ⟨some (Number.finite millis).ceil, true⟩, ?_, ?_,
                      ends_ceil now millis⟩
                    · simp [deadline, hmillis, hzero]
                    · simp [expiryOptions, ttlMillis, hzero, hmillis,
                        Number.isFinite, Except.map]

/-! ## Operations -/

/-- A key that is written was checked. -/
theorem zero_notMem_of_valid {key : JsString}
    (hvalid : validateStorageKey key = .ok ()) : 0 ∉ key := by
  intro hnul
  rw [validateStorageKey, if_pos hnul] at hvalid
  cases hvalid

theorem set_refines {key value : JsString} {options : WriteOptions}
    (hencoded : Encoded table) (hkey : key.wellFormed = true) (hne : key ≠ [])
    (hvalue : value.wellFormed = true) :
    Refines now (contents table) (.set key value options)
        ((SqlStore.set driver now key value options table).1.map
          fun _ => Answer.done)
        (contents (SqlStore.set driver now key value options table).2) ∧
      Encoded (SqlStore.set driver now key value options table).2 := by
  rw [SqlStore.set]
  cases hvalid : validateStorageKey key with
  | error thrown =>
      refine ⟨Refines.refused ?_ (Agree.refl now _), hencoded⟩
      simp only [outcome, hvalid]
      rfl
  | ok =>
      rcases expiryOptions_deadline now options with
        ⟨thrown, hthrown, hexpiry⟩ | ⟨instant, expiry, hinstant, hexpiry, hends⟩
      · rw [hexpiry]
        refine ⟨Refines.refused ?_ (Agree.refl now _), hencoded⟩
        simp only [outcome, hvalid, hthrown]
        rfl
      · rw [hexpiry]
        refine ⟨@Refines.answered _ _
          ((contents table).put key (some (value, instant))) _ _ _ ?_ rfl ?_, ?_⟩
        · simp only [outcome, hvalid, hinstant]
          rfl
        · exact ((expirySweep_agree driver now table).put key _).trans
            (upsert_agree hends hkey hvalue)
        · exact upsert_encoded (expirySweep_encoded hencoded) expiry hkey hne
            (zero_notMem_of_valid hvalid) hvalue

/-- Several upserts after the other. -/
theorem upsertAll {expiry : Expiry} {instant : Option ℚ}
    (hends : Ends (expiry.column now) instant)
    (entries : List (JsString × JsString))
    (hentries : ∀ entry ∈ entries, entry.1.wellFormed = true ∧ entry.1 ≠ [] ∧
      0 ∉ entry.1 ∧ entry.2.wellFormed = true) (hencoded : Encoded table) :
    Agree now
        (entries.foldl
          (fun contents entry => contents.put entry.1 (some (entry.2, instant)))
          (contents table))
        (contents (entries.foldl
          (fun table entry => (upsert now entry.1 entry.2 expiry table).2)
          table)) ∧
      Encoded (entries.foldl
        (fun table entry => (upsert now entry.1 entry.2 expiry table).2)
        table) := by
  induction entries generalizing table with
  | nil => exact ⟨Agree.refl now _, hencoded⟩
  | cons entry rest ih =>
      obtain ⟨hkey, hne, hnul, hvalue⟩ := hentries entry List.mem_cons_self
      obtain ⟨hagree, hlast⟩ := ih
        (fun other hother => hentries other (List.mem_cons_of_mem _ hother))
        (upsert_encoded hencoded expiry hkey hne hnul hvalue)
      exact ⟨((upsert_agree hends hkey hvalue).putMany rest instant).trans
        hagree, hlast⟩

theorem setMany_refines {entries : List (JsString × JsString)}
    {options : WriteOptions} (hencoded : Encoded table)
    (hentries : ∀ entry ∈ entries, entry.1.wellFormed = true ∧ entry.1 ≠ [] ∧
      entry.2.wellFormed = true) :
    Refines now (contents table) (.setMany entries options)
        ((SqlStore.setMany driver now entries options table).1.map
          fun _ => Answer.done)
        (contents (SqlStore.setMany driver now entries options table).2) ∧
      Encoded (SqlStore.setMany driver now entries options table).2 := by
  rw [SqlStore.setMany]
  by_cases hmany : 64 < entries.length
  · rw [if_pos hmany]
    refine ⟨Refines.refused ?_ (Agree.refl now _), hencoded⟩
    simp only [outcome, if_pos hmany]
    rfl
  · rw [if_neg hmany]
    have hforM := validateStorageKey_forM entries Prod.fst
    by_cases hnul : ∃ entry ∈ entries, 0 ∈ entry.1
    · rw [if_pos hnul] at hforM
      rw [hforM]
      refine ⟨Refines.refused ?_ (Agree.refl now _), hencoded⟩
      simp only [outcome, if_neg hmany, hforM]
      rfl
    · rw [if_neg hnul] at hforM
      rw [hforM]
      rcases expiryOptions_deadline now options with
        ⟨thrown, hthrown, hexpiry⟩ | ⟨instant, expiry, hinstant, hexpiry, hends⟩
      · rw [hexpiry]
        refine ⟨Refines.refused ?_ (Agree.refl now _), hencoded⟩
        simp only [outcome, if_neg hmany, hforM, hthrown]
        rfl
      · rw [hexpiry]
        have houtcome : outcome now (contents table) (.setMany entries options) =
            .ok (entries.foldl (fun contents entry =>
              contents.put entry.1 (some (entry.2, instant))) (contents table)) := by
          simp only [outcome, if_neg hmany, hforM, hinstant]
          rfl
        dsimp only
        by_cases hnil : entries = []
        · subst hnil
          rw [if_pos rfl]
          exact ⟨Refines.answered houtcome rfl (Agree.refl now _), hencoded⟩
        · rw [if_neg hnil]
          obtain ⟨hagree, hlast⟩ := upsertAll hends entries
            (fun entry hentry => ⟨(hentries entry hentry).1,
              (hentries entry hentry).2.1,
              fun hmem => hnul ⟨entry, hentry, hmem⟩,
              (hentries entry hentry).2.2⟩)
            (@expirySweep_encoded driver now table hencoded)
          refine ⟨Refines.answered houtcome rfl ?_, hlast⟩
          exact ((expirySweep_agree driver now table).putMany entries
            instant).trans hagree

/-- A conditional statement changes a row exactly where its condition holds. -/
theorem runCas_refines {key : JsString} {expected next : Option JsString}
    {options : WriteOptions} {entry : Option (JsString × Option ℚ)}
    {statement : Table → ℕ × Table} (hencoded : Encoded table)
    (hkey : key.wellFormed = true)
    (houtcome : outcome now (contents table)
        (.compareAndSet key expected next options) =
      .ok (if contents table now key = expected then
        (contents table).put key entry else contents table))
    (happlied : ∀ swept, Encoded swept → contents swept now key = expected →
      (statement swept).1 = 1 ∧
        Agree now ((contents swept).put key entry)
          (contents (statement swept).2) ∧ Encoded (statement swept).2)
    (hmissed : ∀ swept, Encoded swept → contents swept now key ≠ expected →
      statement swept = (0, swept)) :
    Refines now (contents table) (.compareAndSet key expected next options)
        (.ok (.swapped (0 < (runCas driver now statement table).1)))
        (contents (runCas driver now statement table).2) ∧
      Encoded (runCas driver now statement table).2 := by
  rw [runCas]
  have hagree := expirySweep_agree driver now table
  have hswept := @expirySweep_encoded driver now table hencoded
  have hsame := hagree.here hkey
  generalize expirySweep driver now table = swept at hagree hswept hsame ⊢
  by_cases hfound : contents swept now key = expected
  · obtain ⟨hchanged, hput, hlast⟩ := happlied swept hswept hfound
    rw [hsame, if_pos hfound] at houtcome
    rw [hchanged]
    refine ⟨Refines.answered houtcome ?_ ((hagree.put key entry).trans hput),
      hlast⟩
    exact congrArg Answer.swapped
      (decide_eq_true (hsame.trans hfound)).symm
  · rw [hsame, if_neg hfound] at houtcome
    rw [hmissed swept hswept hfound]
    refine ⟨Refines.answered houtcome ?_ hagree, hswept⟩
    refine congrArg Answer.swapped (Eq.symm (decide_eq_false ?_))
    rw [hsame]
    exact hfound

/-- What is absent stays absent. -/
theorem put_none_agree {key : JsString} (hencoded : Encoded table)
    (hfound : contents table now key = none) :
    Agree now ((contents table).put key none) (contents table) := by
  intro reading hlater other _
  rw [Contents.put, Function.update_apply]
  split
  case isTrue hsame =>
    have habsent : contents table reading key = none :=
      (contents_eq_none hencoded key).mpr fun row hrow => expired_later hlater
        ((contents_eq_none hencoded key).mp hfound row hrow)
    rw [hsame, habsent]
    rfl
  case isFalse => rfl

theorem takeOver_of_absent {key value : JsString} {expiry : Expiry}
    (hencoded : Encoded table) (hfound : contents table now key = none) :
    takeOver now key value expiry table = upsert now key value expiry table := by
  have hexpired := (contents_eq_none hencoded key).mp hfound
  rw [takeOver]
  cases hrow : table.get? key.utf8 with
  | none => rfl
  | some row => exact if_pos (hexpired row hrow)

theorem takeOver_of_found {key value : JsString} {expiry : Expiry}
    (hencoded : Encoded table) (hfound : contents table now key ≠ none) :
    takeOver now key value expiry table = (0, table) := by
  rw [takeOver]
  cases hrow : table.get? key.utf8 with
  | none =>
      refine absurd ((contents_eq_none hencoded key).mpr ?_) hfound
      intro row hother
      rw [hrow] at hother
      cases hother
  | some row =>
      refine if_neg fun hexpired => hfound ?_
      refine (contents_eq_none hencoded key).mpr fun other hother => ?_
      rw [hrow] at hother
      rw [← Option.some.inj hother]
      exact hexpired

theorem compareAndSet_refines {key : JsString} {expected next : Option JsString}
    {options : WriteOptions} (hencoded : Encoded table)
    (hkey : key.wellFormed = true) (hne : key ≠ [])
    (hexpected : ∀ value ∈ expected, value.wellFormed = true)
    (hnext : ∀ value ∈ next, value.wellFormed = true) :
    Refines now (contents table) (.compareAndSet key expected next options)
        ((SqlStore.compareAndSet driver now key expected next options table).1.map
          Answer.swapped)
        (contents
          (SqlStore.compareAndSet driver now key expected next options table).2) ∧
      Encoded
        (SqlStore.compareAndSet driver now key expected next options table).2 := by
  rw [SqlStore.compareAndSet.eq_def]
  cases hvalid : validateStorageKey key with
  | error thrown =>
      refine ⟨Refines.refused ?_ (Agree.refl now _), hencoded⟩
      simp only [outcome, hvalid]
      rfl
  | ok =>
      have hnul := zero_notMem_of_valid hvalid
      cases next with
      | none =>
          have houtcome : outcome now (contents table)
                (.compareAndSet key expected none options) =
              .ok (if contents table now key = expected then
                (contents table).put key none else contents table) := by
            simp only [outcome, hvalid]
            split <;> rfl
          cases expected with
          | none =>
              simp only [current_eq hencoded, Except.map]
              refine ⟨Refines.answered houtcome rfl ?_, hencoded⟩
              split
              case isTrue hfound => exact put_none_agree hencoded hfound
              case isFalse => exact Agree.refl now _
          | some value =>
              refine runCas_refines hencoded hkey houtcome ?_ ?_
              · intro swept hswept hfound
                have hholds := (contents_eq_some hswept
                  (hexpected value rfl)).mp hfound
                rw [deleteLive, if_pos hholds]
                exact ⟨rfl, delete_agree hkey, delete_encoded hswept _⟩
              · intro swept hswept hfound
                rw [deleteLive, if_neg]
                exact fun hholds => hfound ((contents_eq_some hswept
                  (hexpected value rfl)).mpr hholds)
      | some value =>
          have hvalue := hnext value rfl
          rcases expiryOptions_deadline now options with
            ⟨thrown, hthrown, hexpiry⟩ |
            ⟨instant, expiry, hinstant, hexpiry, hends⟩
          · simp only [hexpiry, current_eq hencoded]
            by_cases hfound : contents table now key = expected
            · rw [if_neg (not_not.mpr hfound)]
              refine ⟨Refines.refused ?_ (Agree.refl now _), hencoded⟩
              simp only [outcome, hvalid, if_pos hfound, hthrown]
              rfl
            · rw [if_pos hfound]
              refine ⟨@Refines.answered _ _ (contents table) _ _ _ ?_ ?_
                (Agree.refl now _), hencoded⟩
              · simp only [outcome, hvalid, if_neg hfound]
                rfl
              · exact congrArg Answer.swapped (decide_eq_false hfound).symm
          · have houtcome : outcome now (contents table)
                  (.compareAndSet key expected (some value) options) =
                .ok (if contents table now key = expected then
                  (contents table).put key (some (value, instant))
                  else contents table) := by
              simp only [outcome, hvalid, hinstant]
              split <;> rfl
            simp only [hexpiry]
            refine runCas_refines hencoded hkey houtcome ?_ ?_
            · intro swept hswept hfound
              have hchange : (match expected with
                  | none => takeOver now key value expiry
                  | some stored => updateLive now key stored value expiry)
                    swept = upsert now key value expiry swept := by
                cases expected with
                | none => exact takeOver_of_absent hswept hfound
                | some stored =>
                    have hholds := (contents_eq_some hswept
                      (hexpected stored rfl)).mp hfound
                    simp only [updateLive, if_pos hholds]
              rw [hchange]
              exact ⟨rfl, upsert_agree hends hkey hvalue,
                upsert_encoded hswept expiry hkey hne hnul hvalue⟩
            · intro swept hswept hfound
              cases expected with
              | none => exact takeOver_of_found hswept hfound
              | some stored =>
                  simp only [updateLive]
                  rw [if_neg]
                  exact fun hholds => hfound ((contents_eq_some hswept
                    (hexpected stored rfl)).mpr hholds)

/-- The SQL store is the map. -/
theorem perform_refines {operation : Operation}
    (hregular : Regular now operation) (hencoded : Encoded table) :
    Refines now (contents table) operation
        (perform driver now operation table).1
        (contents (perform driver now operation table).2) ∧
      Encoded (perform driver now operation table).2 := by
  have htext := hregular.wellFormed
  cases operation with
  | get key =>
      rw [perform]
      cases hvalid : validateStorageKey key with
      | error thrown =>
          refine ⟨Refines.refused ?_ (Agree.refl now _), hencoded⟩
          simp only [outcome, hvalid]
          rfl
      | ok =>
          simp only [current_eq hencoded, Except.map]
          refine ⟨Refines.answered ?_ rfl (Agree.refl now _), hencoded⟩
          simp only [outcome, hvalid]
          rfl
  | set key value options =>
      exact set_refines hencoded (htext key List.mem_cons_self)
        (hregular.named key List.mem_cons_self)
        (htext value (List.mem_cons_of_mem _ List.mem_cons_self))
  | delete key =>
      rw [perform]
      cases hvalid : validateStorageKey key with
      | error thrown =>
          refine ⟨Refines.refused ?_ (Agree.refl now _), hencoded⟩
          simp only [outcome, hvalid]
          rfl
      | ok =>
          refine ⟨Refines.answered ?_ rfl
            (delete_agree (htext key List.mem_cons_self)),
            delete_encoded hencoded _⟩
          simp only [outcome, hvalid]
          rfl
  | list start =>
      rw [perform]
      cases hvalid : validateStorageKey start with
      | error thrown =>
          refine ⟨Refines.refused ?_ (Agree.refl now _), hencoded⟩
          simp only [outcome, hvalid]
          rfl
      | ok =>
          refine ⟨Refines.answered ?_ ?_ (Agree.refl now _), hencoded⟩
          · simp only [outcome, hvalid]
            rfl
          · exact ⟨_, rfl, lists_rows hencoded (htext start List.mem_cons_self)⟩
  | compareAndSet key expected next options =>
      refine compareAndSet_refines hencoded (htext key List.mem_cons_self)
        (hregular.named key List.mem_cons_self) ?_ ?_
      · intro value hvalue
        exact htext value (List.mem_cons_of_mem _
          (List.mem_append_left _ (Option.mem_toList.mpr hvalue)))
      · intro value hvalue
        exact htext value (List.mem_cons_of_mem _
          (List.mem_append_right _ (Option.mem_toList.mpr hvalue)))
  | getMany keys =>
      rw [perform, getMany_eq hencoded]
      cases hvalid : keys.forM validateStorageKey with
      | error thrown =>
          refine ⟨Refines.refused ?_ (Agree.refl now _), hencoded⟩
          simp only [outcome, hvalid]
          rfl
      | ok =>
          refine ⟨Refines.answered ?_ rfl (Agree.refl now _), hencoded⟩
          simp only [outcome, hvalid]
          rfl
  | setMany entries options =>
      refine setMany_refines hencoded ?_
      intro entry hentry
      have hkey := htext entry.1
        (List.mem_flatMap.mpr ⟨entry, hentry, List.mem_cons_self⟩)
      have hvalue := htext entry.2 (List.mem_flatMap.mpr
        ⟨entry, hentry, List.mem_cons_of_mem _ List.mem_cons_self⟩)
      exact ⟨hkey, hregular.named entry.1 (List.mem_map_of_mem hentry), hvalue⟩

end Writes

end SqlStore

end Connecta.Storage
