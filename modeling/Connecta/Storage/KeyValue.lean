import Connecta.Runtime.Double
import Connecta.Runtime.Utf8

/-!
# Key-value stores

What every store is asked, and what it is for: a map from keys to values whose
entries are absent from an instant on.  A store is judged by what its readers
find at a clock reading and at every later one.
-/

namespace Connecta.Storage

open Connecta.Runtime

/-- A clock reading: a time value, in whole milliseconds. -/
structure Reading where
  instant : ℤ
  bound : |instant| ≤ 8640000000000000

/-- What an operation throws. -/
inductive Thrown where
  | typeError (text : JsString)
  | rangeError (text : JsString)
  | error (text : JsString)
  deriving DecidableEq

structure WriteOptions where
  ttlSeconds : Option Number
  expiresAtMs : Option Number
  deriving DecidableEq

inductive Operation where
  | get (key : JsString)
  | set (key value : JsString) (options : WriteOptions)
  | delete (key : JsString)
  | list (start : JsString)
  | compareAndSet (key : JsString) (expected next : Option JsString)
      (options : WriteOptions)
  | getMany (keys : List JsString)
  | setMany (entries : List (JsString × JsString)) (options : WriteOptions)
  deriving DecidableEq

inductive Answer where
  | value (found : Option JsString)
  | done
  | keys (found : List JsString)
  | swapped (applied : Bool)
  | values (found : List (Option JsString))
  deriving DecidableEq

def nulInKey : Thrown :=
  .typeError (.ofAscii
    "Storage keys and list prefixes must not contain U+0000 (NUL)")

def invalidInstant : Thrown :=
  .rangeError (.ofAscii
    "expiresAtMs must be a safe integer epoch timestamp without ttlSeconds")

def invalidTtl : Thrown :=
  .rangeError (.ofAscii "ttlSeconds must produce a finite expiration timestamp")

def tooManyRows : Thrown :=
  .rangeError (.ofAscii "setMany accepts at most 64 rows")

/-- `validateStorageKey` -/
def validateStorageKey (key : JsString) : Except Thrown Unit :=
  if 0 ∈ key then .error nulInKey else .ok ()

/-- `keys.sort()`: the order of UTF-16 code units. -/
def sortKeys (keys : List JsString) : List JsString :=
  keys.mergeSort fun left right => left ≤ right

/-! ## The map a store keeps -/

/-- Whether an entry is there, until the instant it ends. -/
def alive (deadline : Option ℚ) (reading : Reading) : Bool :=
  deadline.all fun instant => (reading.instant : ℚ) < instant

/-- What a reader finds at each clock reading. -/
abbrev Contents := Reading → JsString → Option JsString

/-- One key holds a new entry, or none. -/
def Contents.put (contents : Contents) (key : JsString)
    (next : Option (JsString × Option ℚ)) : Contents := fun reading =>
  Function.update (contents reading) key
    (next.bind fun entry => if alive entry.2 reading then some entry.1 else none)

/-- When a write at a clock reading ends, without rounding the sum. -/
def deadline (now : Reading) (options : WriteOptions) :
    Except Thrown (Option ℚ) :=
  match options.expiresAtMs, options.ttlSeconds with
  | some (.finite instant), none =>
      if Number.isSafeInteger (.finite instant) then .ok (some instant)
      else .error invalidInstant
  | some _, _ => .error invalidInstant
  | none, none => .ok none
  | none, some (.finite ttl) =>
      match (Number.finite ttl).times 1000 with
      | .finite millis =>
          if ttl = 0 then .ok none else .ok (some (now.instant + millis))
      | _ => .error invalidTtl
  | none, some _ => .error invalidTtl

/-- Whether a sum of a time to live ends within the millisecond before, rounded
to the clock reading that starts it. -/
def rounds (now : Reading) (options : WriteOptions) : Bool :=
  match options.ttlSeconds.map (Number.times 1000) with
  | some (.finite millis) =>
      ⌊millis⌋ < millis &&
        ((Number.finite millis).plus now.instant).reached
          (now.instant + ⌊millis⌋)
  | _ => false

/-- What an operation leaves, or throws and leaves everything. -/
def outcome (now : Reading) (before : Contents) :
    Operation → Except Thrown Contents
  | .get key => do
      validateStorageKey key
      return before
  | .set key value options => do
      validateStorageKey key
      let instant ← deadline now options
      return before.put key (some (value, instant))
  | .delete key => do
      validateStorageKey key
      return before.put key none
  | .list start => do
      validateStorageKey start
      return before
  | .compareAndSet key expected next options => do
      validateStorageKey key
      if before now key = expected then
        match next with
        | none => return before.put key none
        | some value =>
            let instant ← deadline now options
            return before.put key (some (value, instant))
      else return before
  | .getMany keys => do
      keys.forM validateStorageKey
      return before
  | .setMany entries options => do
      if 64 < entries.length then throw tooManyRows
      entries.forM fun entry => validateStorageKey entry.1
      let instant ← deadline now options
      return entries.foldl
        (fun contents entry => contents.put entry.1 (some (entry.2, instant)))
        before

/-- The keys a reader finds under a start, in order. -/
structure Lists (now : Reading) (before : Contents) (start : JsString)
    (found : List JsString) : Prop where
  sorted : found.Pairwise fun left right => left ≤ right
  nodup : found.Nodup
  mem_iff : ∀ key, key ∈ found ↔
    key.wellFormed = true ∧ start <+: key ∧ (before now key).isSome

/-- What an operation that does not throw answers. -/
def Answers (now : Reading) (before : Contents) : Operation → Answer → Prop
  | .get key, answer => answer = .value (before now key)
  | .set _ _ _, answer => answer = .done
  | .delete _, answer => answer = .done
  | .list start, answer => ∃ found,
      answer = .keys found ∧ Lists now before start found
  | .compareAndSet key expected _ _, answer =>
      answer = .swapped (before now key = expected)
  | .getMany keys, answer => answer = .values (keys.map (before now))
  | .setMany _ _, answer => answer = .done

/-- A clock reading's operation behaves as on the map. -/
def Meets (now : Reading) (before : Contents) (operation : Operation)
    (answer : Except Thrown Answer) (after : Contents) : Prop :=
  match outcome now before operation with
  | .error thrown => answer = .error thrown ∧ after = before
  | .ok contents => after = contents ∧
      ∃ reply, answer = .ok reply ∧ Answers now before operation reply

/-- Two maps no reader tells apart from a clock reading on. -/
def Agree (now : Reading) (left right : Contents) : Prop :=
  ∀ reading : Reading, now.instant ≤ reading.instant →
    ∀ key : JsString, key.wellFormed = true →
      left reading key = right reading key

/-- An operation of a store behaves as on the map, for every later reader. -/
def Refines (now : Reading) (before : Contents) (operation : Operation)
    (answer : Except Thrown Answer) (after : Contents) : Prop :=
  ∃ contents, Meets now before operation answer contents ∧
    Agree now contents after

/-! ## Regular operations -/

namespace Operation

def strings : Operation → List JsString
  | .get key | .delete key => [key]
  | .set key value _ => [key, value]
  | .list start => [start]
  | .compareAndSet key expected next _ => key :: (expected.toList ++ next.toList)
  | .getMany keys => keys
  | .setMany entries _ => entries.flatMap fun entry => [entry.1, entry.2]

def writtenKeys : Operation → List JsString
  | .set key _ _ | .compareAndSet key _ _ _ => [key]
  | .setMany entries _ => entries.map Prod.fst
  | .get _ | .delete _ | .list _ | .getMany _ => []

def options : Operation → Option WriteOptions
  | .set _ _ options | .compareAndSet _ _ _ options | .setMany _ options =>
      some options
  | .get _ | .delete _ | .list _ | .getMany _ => none

end Operation

/-- Entries a write of several entries takes or refuses as a whole. -/
structure Together (now : Reading) (entries : List (JsString × JsString))
    (options : WriteOptions) : Prop where
  few : entries.length ≤ 64
  later : ∀ entry ∈ entries.tail, 0 ∉ entry.1
  checked : entries = [] → ∃ instant, deadline now options = .ok instant

/-- An operation whose strings are text, that writes no empty key, whose time to
live keeps its fraction and whose entries belong together. -/
structure Regular (now : Reading) (operation : Operation) : Prop where
  wellFormed : ∀ text ∈ operation.strings, text.wellFormed = true
  named : ∀ key ∈ operation.writtenKeys, key ≠ []
  precise : ∀ options, operation.options = some options →
    rounds now options = false
  together : ∀ entries options, operation = .setMany entries options →
    Together now entries options

theorem validateStorageKey_forM {Item : Type*} (items : List Item)
    (key : Item → JsString) :
    (items.forM fun item => validateStorageKey (key item)) =
      if ∃ item ∈ items, 0 ∈ key item then .error nulInKey else .ok () := by
  induction items with
  | nil => rfl
  | cons item rest ih =>
      change (validateStorageKey (key item) >>= fun _ =>
        rest.forM fun later => validateStorageKey (key later)) = _
      rw [ih]
      by_cases hitem : 0 ∈ key item
      · have hexists : ∃ other ∈ item :: rest, 0 ∈ key other :=
          ⟨item, List.mem_cons_self, hitem⟩
        rw [validateStorageKey, if_pos hitem, if_pos hexists]
        rfl
      · rw [validateStorageKey, if_neg hitem]
        simp only [List.exists_mem_cons_iff, hitem, false_or]
        rfl

/-! ## Instants -/

/-- An expiry that readers pass at the clock readings a deadline ends at. -/
def Ends (exp : Option Number) (deadline : Option ℚ) : Prop :=
  ∀ reading : Reading,
    exp.any (Number.reached reading.instant) = !alive deadline reading

theorem Reading.abs_lt (reading : Reading) :
    |(reading.instant : ℚ)| < 2 ^ (53 : ℤ) := by
  have hbound : |(reading.instant : ℚ)| ≤ 8640000000000000 := by
    exact_mod_cast reading.bound
  refine hbound.trans_lt ?_
  norm_num

theorem Reading.abs_succ_lt (reading : Reading) :
    |((reading.instant + 1 : ℤ) : ℚ)| < 2 ^ (53 : ℤ) := by
  have hbound : |(reading.instant : ℚ)| ≤ 8640000000000000 := by
    exact_mod_cast reading.bound
  push_cast
  refine (abs_add_le _ _).trans_lt ?_
  rw [abs_one]
  refine (add_le_add_left hbound 1).trans_lt ?_
  norm_num

theorem ends_never : Ends none none := fun _ => rfl

theorem ends_instant (instant : ℚ) :
    Ends (some (.finite instant)) (some instant) := by
  intro reading
  simp only [Option.any_some, Number.reached, alive, Option.all_some,
    ← decide_not, not_lt]

/-- An exact sum ends where each clock reading finds the rounded one reached. -/
theorem ends_ofRat {exp value : ℚ} (hpast : ∀ reading : Reading,
      value ≤ reading.instant → exp ≤ reading.instant)
    (hnext : ∀ reading : Reading, (reading.instant : ℚ) < value →
      ((reading.instant + 1 : ℤ) : ℚ) ≤ exp ∨
        (Number.ofRat exp).reached reading.instant = false) :
    Ends (some (.ofRat exp)) (some value) := by
  intro reading
  simp only [Option.any_some, alive, Option.all_some]
  by_cases hvalue : value ≤ reading.instant
  · rw [Number.reached_of_le reading.abs_lt (hpast reading hvalue),
      decide_eq_false (not_lt.mpr hvalue), Bool.not_false]
  · rw [decide_eq_true (not_le.mp hvalue), Bool.not_true]
    cases hnext reading (not_le.mp hvalue) with
    | inl hle => exact Number.not_reached_of_succ_le reading.abs_succ_lt hle
    | inr hreached => exact hreached

theorem ends_ceil (now : Reading) (millis : ℚ) :
    Ends (some ((Number.finite millis).ceil.plus now.instant))
      (some (now.instant + millis)) := by
  apply ends_ofRat
  · intro reading hle
    have hceil : ⌈millis⌉ ≤ reading.instant - now.instant := by
      rw [Int.ceil_le]
      push_cast
      linarith
    have hsum : now.instant + ⌈millis⌉ ≤ reading.instant := by omega
    exact_mod_cast hsum
  · intro reading hlt
    have hceil : reading.instant - now.instant < ⌈millis⌉ := by
      rw [Int.lt_ceil]
      push_cast
      linarith
    have hsum : reading.instant + 1 ≤ now.instant + ⌈millis⌉ := by omega
    exact .inl (by exact_mod_cast hsum)

theorem ends_sum {now : Reading} {options : WriteOptions} {ttl : Number}
    {millis : ℚ} (hprecise : rounds now options = false)
    (httl : options.ttlSeconds = some ttl)
    (hmillis : ttl.times 1000 = .finite millis) :
    Ends (some ((Number.finite millis).plus now.instant))
      (some (now.instant + millis)) := by
  apply ends_ofRat
  · exact fun _ hle => hle
  · intro reading hlt
    rw [or_iff_not_imp_left]
    intro hnext
    have hfloor : ⌊millis⌋ = reading.instant - now.instant := by
      rw [Int.floor_eq_iff]
      push_cast at hnext ⊢
      constructor <;> linarith
    have hfraction : (⌊millis⌋ : ℚ) < millis := by
      rw [hfloor]
      push_cast
      linarith
    have hreading : now.instant + ⌊millis⌋ = reading.instant := by omega
    simpa [rounds, httl, hmillis, hfraction, hreading, Number.plus]
      using hprecise

/-- A clock reading and a double add up to a double. -/
theorem isFinite_plus (now : Reading) {factor : ℕ} {number : Number} {millis : ℚ}
    (hmillis : number.times factor = .finite millis) :
    ((Number.finite millis).plus now.instant).isFinite = true := by
  have hsum : |(now.instant : ℚ) + millis| < Number.overflowAt := by
    calc |(now.instant : ℚ) + millis|
        ≤ |(now.instant : ℚ)| + |millis| := abs_add_le _ _
      _ ≤ 2 ^ (54 : ℤ) + Number.largest := by
          refine add_le_add ?_ (Number.abs_le_of_times hmillis)
          exact now.abs_lt.le.trans
            (zpow_le_zpow_right₀ one_le_two (by norm_num))
      _ = Number.largest + 2 ^ (54 : ℤ) := add_comm _ _
      _ < Number.overflowAt := Number.largest_lt_overflowAt
  rw [Number.plus, Number.ofRat, if_pos hsum]
  rfl

/-! ## One map, one behaviour -/

theorem Refines.refused {now : Reading} {before after : Contents}
    {operation : Operation} {thrown : Thrown}
    (houtcome : outcome now before operation = .error thrown)
    (hagree : Agree now before after) :
    Refines now before operation (.error thrown) after := by
  refine ⟨before, ?_, hagree⟩
  rw [Meets, houtcome]
  exact ⟨rfl, rfl⟩

theorem Refines.answered {now : Reading} {before contents after : Contents}
    {operation : Operation} {reply : Answer}
    (houtcome : outcome now before operation = .ok contents)
    (hreply : Answers now before operation reply)
    (hagree : Agree now contents after) :
    Refines now before operation (.ok reply) after := by
  refine ⟨contents, ?_, hagree⟩
  rw [Meets, houtcome]
  exact ⟨rfl, reply, rfl, hreply⟩

namespace Agree

variable {now : Reading} {left right : Contents}

theorem refl (now : Reading) (contents : Contents) :
    Agree now contents contents := fun _ _ _ _ => rfl

theorem symm (hagree : Agree now left right) : Agree now right left :=
  fun reading hlater key hkey => (hagree reading hlater key hkey).symm

theorem trans {middle : Contents} (hleft : Agree now left middle)
    (hright : Agree now middle right) : Agree now left right :=
  fun reading hlater key hkey =>
    (hleft reading hlater key hkey).trans (hright reading hlater key hkey)

theorem later {next : Reading} (hagree : Agree now left right)
    (hlater : now.instant ≤ next.instant) : Agree next left right :=
  fun reading hreading => hagree reading (hlater.trans hreading)

theorem here (hagree : Agree now left right) {key : JsString}
    (hkey : key.wellFormed = true) : left now key = right now key :=
  hagree now le_rfl key hkey

theorem put (hagree : Agree now left right) (key : JsString)
    (next : Option (JsString × Option ℚ)) :
    Agree now (left.put key next) (right.put key next) := by
  intro reading hlater other hother
  by_cases hkey : other = key
  · subst hkey
    simp only [Contents.put, Function.update_self]
  · simp only [Contents.put, Function.update_of_ne hkey]
    exact hagree reading hlater other hother

theorem putMany (hagree : Agree now left right)
    (entries : List (JsString × JsString)) (instant : Option ℚ) :
    Agree now
      (entries.foldl
        (fun contents entry => contents.put entry.1 (some (entry.2, instant)))
        left)
      (entries.foldl
        (fun contents entry => contents.put entry.1 (some (entry.2, instant)))
        right) := by
  induction entries generalizing left right with
  | nil => exact hagree
  | cons entry rest ih => exact ih (hagree.put entry.1 _)

end Agree

theorem sortKeys_pairwise (keys : List JsString) :
    (sortKeys keys).Pairwise fun left right => left ≤ right := by
  have hsorted := @List.pairwise_mergeSort JsString
    (fun left right => decide (left ≤ right))
    (fun left middle right hleft hright => decide_eq_true
      (List.le_trans (of_decide_eq_true hleft) (of_decide_eq_true hright)))
    (fun left right => by
      simpa [Bool.or_eq_true] using List.le_total left right) keys
  exact hsorted.imp of_decide_eq_true

theorem Lists.unique {now : Reading} {left right : Contents}
    (hagree : Agree now left right) {start : JsString}
    {here there : List JsString} (hhere : Lists now left start here)
    (hthere : Lists now right start there) : here = there := by
  have hmem : ∀ key, key ∈ here ↔ key ∈ there := by
    intro key
    rw [hhere.mem_iff, hthere.mem_iff]
    refine and_congr_right fun hkey => ?_
    rw [hagree.here hkey]
  have hperm := (List.perm_ext_iff_of_nodup hhere.nodup hthere.nodup).mpr hmem
  exact hperm.eq_of_pairwise (fun _ _ _ _ => List.le_antisymm) hhere.sorted
    hthere.sorted

/-- The keys an operation reads. -/
def Operation.readKeys : Operation → List JsString
  | .get key | .compareAndSet key _ _ _ => [key]
  | .getMany keys => keys
  | .set _ _ _ | .delete _ | .list _ | .setMany _ _ => []

section Determined

variable {now : Reading} {left right : Contents} {operation : Operation}

theorem outcome_agree (hagree : Agree now left right)
    (hkeys : ∀ key ∈ operation.readKeys, key.wellFormed = true) :
    (∃ thrown, outcome now left operation = .error thrown ∧
        outcome now right operation = .error thrown) ∨
      ∃ here there, outcome now left operation = .ok here ∧
        outcome now right operation = .ok there ∧ Agree now here there := by
  cases operation with
  | get key =>
      simp only [outcome]
      cases validateStorageKey key with
      | error thrown => exact .inl ⟨thrown, rfl, rfl⟩
      | ok => exact .inr ⟨left, right, rfl, rfl, hagree⟩
  | set key value options =>
      simp only [outcome]
      cases validateStorageKey key with
      | error thrown => exact .inl ⟨thrown, rfl, rfl⟩
      | ok =>
          cases deadline now options with
          | error thrown => exact .inl ⟨thrown, rfl, rfl⟩
          | ok instant => exact .inr ⟨_, _, rfl, rfl, hagree.put key _⟩
  | delete key =>
      simp only [outcome]
      cases validateStorageKey key with
      | error thrown => exact .inl ⟨thrown, rfl, rfl⟩
      | ok => exact .inr ⟨_, _, rfl, rfl, hagree.put key none⟩
  | list start =>
      simp only [outcome]
      cases validateStorageKey start with
      | error thrown => exact .inl ⟨thrown, rfl, rfl⟩
      | ok => exact .inr ⟨left, right, rfl, rfl, hagree⟩
  | compareAndSet key expected next options =>
      simp only [outcome,
        hagree.here (hkeys key (List.mem_singleton_self key))]
      cases validateStorageKey key with
      | error thrown => exact .inl ⟨thrown, rfl, rfl⟩
      | ok =>
          by_cases hfound : right now key = expected
          · simp only [if_pos hfound]
            cases next with
            | none => exact .inr ⟨_, _, rfl, rfl, hagree.put key none⟩
            | some value =>
                cases deadline now options with
                | error thrown => exact .inl ⟨thrown, rfl, rfl⟩
                | ok instant => exact .inr ⟨_, _, rfl, rfl, hagree.put key _⟩
          · simp only [if_neg hfound]
            exact .inr ⟨left, right, rfl, rfl, hagree⟩
  | getMany keys =>
      simp only [outcome]
      cases keys.forM validateStorageKey with
      | error thrown => exact .inl ⟨thrown, rfl, rfl⟩
      | ok => exact .inr ⟨left, right, rfl, rfl, hagree⟩
  | setMany entries options =>
      simp only [outcome]
      by_cases hmany : 64 < entries.length
      · simp only [if_pos hmany]
        exact .inl ⟨tooManyRows, rfl, rfl⟩
      · simp only [if_neg hmany]
        cases entries.forM fun entry => validateStorageKey entry.1 with
        | error thrown => exact .inl ⟨thrown, rfl, rfl⟩
        | ok =>
            cases deadline now options with
            | error thrown => exact .inl ⟨thrown, rfl, rfl⟩
            | ok instant =>
                exact .inr ⟨_, _, rfl, rfl, hagree.putMany entries instant⟩

theorem Answers.unique (hagree : Agree now left right)
    (hkeys : ∀ key ∈ operation.readKeys, key.wellFormed = true)
    {here there : Answer} (hhere : Answers now left operation here)
    (hthere : Answers now right operation there) : here = there := by
  cases operation with
  | get key =>
      rw [show here = _ from hhere, show there = _ from hthere,
        hagree.here (hkeys key (List.mem_singleton_self key))]
  | set key value options => exact Eq.trans hhere (Eq.symm hthere)
  | delete key => exact Eq.trans hhere (Eq.symm hthere)
  | list start =>
      obtain ⟨found, rfl, hfound⟩ := hhere
      obtain ⟨other, rfl, hother⟩ := hthere
      rw [hfound.unique hagree hother]
  | compareAndSet key expected next options =>
      rw [show here = _ from hhere, show there = _ from hthere,
        hagree.here (hkeys key (List.mem_singleton_self key))]
  | getMany keys =>
      have hfound : keys.map (left now) = keys.map (right now) :=
        List.map_congr_left fun key hkey => hagree.here (hkeys key hkey)
      rw [show here = _ from hhere, show there = _ from hthere, hfound]
  | setMany entries options => exact Eq.trans hhere (Eq.symm hthere)

theorem Answers.transfer (hagree : Agree now left right)
    (hkeys : ∀ key ∈ operation.readKeys, key.wellFormed = true)
    {reply : Answer} (hreply : Answers now right operation reply) :
    Answers now left operation reply := by
  cases operation with
  | get key =>
      rw [show reply = _ from hreply,
        ← hagree.here (hkeys key (List.mem_singleton_self key))]
      rfl
  | set | delete | setMany => exact hreply
  | list start =>
      obtain ⟨found, rfl, hfound⟩ := hreply
      refine ⟨found, rfl, hfound.sorted, hfound.nodup, fun key => ?_⟩
      rw [hfound.mem_iff]
      exact and_congr_right fun hkey => by rw [hagree.here hkey]
  | compareAndSet key expected next options =>
      rw [show reply = _ from hreply,
        ← hagree.here (hkeys key (List.mem_singleton_self key))]
      rfl
  | getMany keys =>
      have hfound : keys.map (left now) = keys.map (right now) :=
        List.map_congr_left fun key hkey => hagree.here (hkeys key hkey)
      rw [show reply = _ from hreply, ← hfound]
      rfl

/-- What an operation does to a map it does to one no reader tells apart. -/
theorem Refines.transfer (hagree : Agree now left right)
    (hkeys : ∀ key ∈ operation.readKeys, key.wellFormed = true)
    {answer : Except Thrown Answer} {after : Contents}
    (hrefines : Refines now right operation answer after) :
    Refines now left operation answer after := by
  obtain ⟨contents, hmeets, hafter⟩ := hrefines
  rw [Meets] at hmeets
  rcases outcome_agree hagree hkeys with
    ⟨thrown, hleft, hright⟩ | ⟨here, there, hleft, hright, hnext⟩
  · rw [hright] at hmeets
    obtain ⟨rfl, rfl⟩ := hmeets
    exact Refines.refused hleft (hagree.trans hafter)
  · rw [hright] at hmeets
    obtain ⟨rfl, reply, rfl, hreply⟩ := hmeets
    exact Refines.answered hleft (hreply.transfer hagree hkeys)
      (hnext.trans hafter)

theorem Meets.unique (hagree : Agree now left right)
    (hkeys : ∀ key ∈ operation.readKeys, key.wellFormed = true)
    {here there : Except Thrown Answer} {leftAfter rightAfter : Contents}
    (hhere : Meets now left operation here leftAfter)
    (hthere : Meets now right operation there rightAfter) :
    here = there ∧ Agree now leftAfter rightAfter := by
  rw [Meets] at hhere hthere
  rcases outcome_agree hagree hkeys with
    ⟨thrown, hleft, hright⟩ | ⟨leftNext, rightNext, hleft, hright, hnext⟩
  · rw [hleft] at hhere
    rw [hright] at hthere
    obtain ⟨rfl, rfl⟩ := hhere
    obtain ⟨rfl, rfl⟩ := hthere
    exact ⟨rfl, hagree⟩
  · rw [hleft] at hhere
    rw [hright] at hthere
    obtain ⟨rfl, reply, rfl, hreply⟩ := hhere
    obtain ⟨rfl, other, rfl, hother⟩ := hthere
    rw [hreply.unique hagree hkeys hother]
    exact ⟨rfl, hnext⟩

/-- The map decides what is answered, and what is left. -/
theorem Refines.unique (hagree : Agree now left right)
    (hkeys : ∀ key ∈ operation.readKeys, key.wellFormed = true)
    {here there : Except Thrown Answer} {leftAfter rightAfter : Contents}
    (hleft : Refines now left operation here leftAfter)
    (hright : Refines now right operation there rightAfter) :
    here = there ∧ Agree now leftAfter rightAfter := by
  obtain ⟨leftMap, hhere, hleftMap⟩ := hleft
  obtain ⟨rightMap, hthere, hrightMap⟩ := hright
  have hsame : here = there ∧ Agree now leftMap rightMap :=
    hhere.unique hagree hkeys hthere
  exact ⟨hsame.1, hleftMap.symm.trans (hsame.2.trans hrightMap)⟩

end Determined

theorem Regular.readKeys {now : Reading} {operation : Operation}
    (hregular : Regular now operation) :
    ∀ key ∈ operation.readKeys, key.wellFormed = true := by
  intro key hkey
  apply hregular.wellFormed
  cases operation with
  | get => exact hkey
  | compareAndSet =>
      rw [List.mem_singleton.mp hkey]
      exact List.mem_cons_self
  | getMany => exact hkey
  | set | delete | list | setMany => cases hkey

/-! ## Runs -/

/-- What a store does at each clock reading it is asked at. -/
abbrev Behaviour (Store : Type*) :=
  Reading → Operation → Store → Except Thrown Answer × Store

/-- The answers of a run, and the store it leaves. -/
def run {Store : Type*} (perform : Behaviour Store) :
    List (Reading × Operation) → Store → List (Except Thrown Answer) × Store
  | [], store => ([], store)
  | step :: rest, store =>
      let performed := perform step.1 step.2 store
      let others := run perform rest performed.2
      (performed.1 :: others.1, others.2)

/-- A store whose readers find the map it implements. -/
structure Implements {Store : Type*} (perform : Behaviour Store)
    (contents : Store → Contents) (Valid : Store → Prop) : Prop where
  refines : ∀ now operation store, Regular now operation → Valid store →
    Refines now (contents store) operation (perform now operation store).1
      (contents (perform now operation store).2)
  valid : ∀ now operation store, Regular now operation → Valid store →
    Valid (perform now operation store).2

section Runs

variable {Left Right : Type*} {performLeft : Behaviour Left}
  {performRight : Behaviour Right} {contentsLeft : Left → Contents}
  {contentsRight : Right → Contents} {ValidLeft : Left → Prop}
  {ValidRight : Right → Prop}

/-- Two stores that implement the map answer alike, and leave it alike. -/
theorem Implements.run_agree
    (hleft : Implements performLeft contentsLeft ValidLeft)
    (hright : Implements performRight contentsRight ValidRight)
    {steps : List (Reading × Operation)} {start : ℤ}
    (hstart : ∀ step ∈ steps, start ≤ step.1.instant)
    (hordered : steps.Pairwise fun earlier later =>
      earlier.1.instant ≤ later.1.instant)
    (hregular : ∀ step ∈ steps, Regular step.1 step.2) {left : Left}
    {right : Right} (hvalidLeft : ValidLeft left) (hvalidRight : ValidRight right)
    (hagree : ∀ now : Reading, start ≤ now.instant →
      Agree now (contentsLeft left) (contentsRight right)) :
    (run performLeft steps left).1 = (run performRight steps right).1 ∧
      ∀ now : Reading, start ≤ now.instant →
        (∀ step ∈ steps, step.1.instant ≤ now.instant) →
        Agree now (contentsLeft (run performLeft steps left).2)
          (contentsRight (run performRight steps right).2) := by
  induction steps generalizing left right start with
  | nil => exact ⟨rfl, fun now hnow _ => hagree now hnow⟩
  | cons step rest ih =>
      obtain ⟨hfirst, hrest⟩ := List.pairwise_cons.mp hordered
      have hstep := hregular step List.mem_cons_self
      have hfrom := hstart step List.mem_cons_self
      obtain ⟨hanswer, hafter⟩ := Refines.unique (hagree step.1 hfrom)
        hstep.readKeys (hleft.refines step.1 step.2 left hstep hvalidLeft)
        (hright.refines step.1 step.2 right hstep hvalidRight)
      obtain ⟨hanswers, hlast⟩ := ih hfirst hrest
        (fun other hother => hregular other (List.mem_cons_of_mem _ hother))
        (hleft.valid step.1 step.2 left hstep hvalidLeft)
        (hright.valid step.1 step.2 right hstep hvalidRight)
        (fun now hnow => hafter.later hnow)
      refine ⟨?_, ?_⟩
      · rw [run, run, hanswer, hanswers]
      · intro now _ hbefore
        exact hlast now (hbefore step List.mem_cons_self)
          fun other hother => hbefore other (List.mem_cons_of_mem _ hother)

end Runs

end Connecta.Storage
