import Connecta.Foundation.OrderedMap
import Connecta.Storage.KeyValue

/-!
# The memory store

Entries in a map in insertion order.  A read removes the expired entry it finds,
and a write passes over sixteen keys of a sweep that goes around the map.
-/

namespace Connecta.Storage

open Connecta.Foundation
open Connecta.Runtime

structure Entry where
  value : JsString
  exp : Option Number
  deriving DecidableEq

structure MemoryStore where
  map : OrderedMap JsString Entry
  /-- How many keys the iterator of the sweep has passed. -/
  sweep : ℕ

namespace MemoryStore

def empty : MemoryStore := ⟨.empty, 0⟩

/-- `map.delete(key)`; an iterator that has passed the key keeps its place. -/
def remove (store : MemoryStore) (key : JsString) : MemoryStore where
  map := store.map.delete key
  sweep :=
    if store.map.keys.idxOf key < store.sweep then store.sweep - 1
    else store.sweep

def fresh (now : Reading) (key : JsString) (store : MemoryStore) :
    Option Entry × MemoryStore :=
  match store.map.get? key with
  | none => (none, store)
  | some entry =>
      if entry.exp.any (Number.reached now.instant) then
        (none, store.remove key)
      else (some entry, store)

/-- The expiry of a write, checked as `write` checks it. -/
def writeExpiry (now : Reading) (options : WriteOptions) :
    Except Thrown (Option Number) :=
  if options.expiresAtMs.any fun instant =>
      !instant.isSafeInteger || options.ttlSeconds.isSome then
    .error invalidInstant
  else if options.ttlSeconds.any fun ttl => !ttl.isFinite then
    .error invalidTtl
  else
    let exp :=
      match options.expiresAtMs with
      | some instant => some instant
      | none =>
          match options.ttlSeconds with
          | none => none
          | some ttl =>
              if ttl.truthy then some ((ttl.times 1000).plus now.instant)
              else none
    if exp.any fun instant => !instant.isFinite then .error invalidTtl
    else .ok exp

/-- The keys a write passes over. -/
def sweepKeys (now : Reading) : ℕ → MemoryStore → MemoryStore
  | 0, store => store
  | count + 1, store =>
      match store.map.keys[store.sweep]? with
      | none => { store with sweep := 0 }
      | some key =>
          sweepKeys now count
            (fresh now key { store with sweep := store.sweep + 1 }).2

def write (now : Reading) (key value : JsString) (options : WriteOptions)
    (store : MemoryStore) : Except Thrown Unit × MemoryStore :=
  match writeExpiry now options with
  | .error thrown => (.error thrown, store)
  | .ok exp =>
      let swept := sweepKeys now 16 store
      (.ok (), { swept with map := swept.map.set key ⟨value, exp⟩ })

def get (now : Reading) (key : JsString) (store : MemoryStore) :
    Except Thrown (Option JsString) × MemoryStore :=
  match validateStorageKey key with
  | .error thrown => (.error thrown, store)
  | .ok _ =>
      let found := fresh now key store
      (.ok (found.1.map Entry.value), found.2)

def set (now : Reading) (key value : JsString) (options : WriteOptions)
    (store : MemoryStore) : Except Thrown Unit × MemoryStore :=
  match validateStorageKey key with
  | .error thrown => (.error thrown, store)
  | .ok _ => write now key value options store

/-- The keys of the filter of `list`, which reads each of them. -/
def listKeys (now : Reading) (start : JsString) :
    List JsString → MemoryStore → List JsString × MemoryStore
  | [], store => ([], store)
  | key :: rest, store =>
      let read := (fresh now key store).2
      let listed := listKeys now start rest read
      (if start.isPrefixOf key && (read.map.get? key).isSome then
        key :: listed.1 else listed.1, listed.2)

def compareAndSet (now : Reading) (key : JsString)
    (expected next : Option JsString) (options : WriteOptions)
    (store : MemoryStore) : Except Thrown Bool × MemoryStore :=
  match validateStorageKey key with
  | .error thrown => (.error thrown, store)
  | .ok _ =>
      let found := fresh now key store
      if found.1.map Entry.value ≠ expected then (.ok false, found.2)
      else
        match next with
        | none => (.ok true, found.2.remove key)
        | some value =>
            let written := write now key value options found.2
            (written.1.map fun _ => true, written.2)

/-- Without a `getMany` of its own, each key is read after the other. -/
def getMany (now : Reading) :
    List JsString → MemoryStore →
      Except Thrown (List (Option JsString)) × MemoryStore
  | [], store => (.ok [], store)
  | key :: rest, store =>
      match get now key store with
      | (.error thrown, read) => (.error thrown, read)
      | (.ok value, read) =>
          let others := getMany now rest read
          (others.1.map fun values => value :: values, others.2)

/-- Without a `setMany` of its own, each entry is set after the other. -/
def setMany (now : Reading) (options : WriteOptions) :
    List (JsString × JsString) → MemoryStore →
      Except Thrown Unit × MemoryStore
  | [], store => (.ok (), store)
  | entry :: rest, store =>
      match set now entry.1 entry.2 options store with
      | (.error thrown, written) => (.error thrown, written)
      | (.ok _, written) => setMany now options rest written

def perform (now : Reading) :
    Operation → MemoryStore → Except Thrown Answer × MemoryStore
  | .get key, store => (get now key store).map (·.map Answer.value) id
  | .set key value options, store =>
      (set now key value options store).map (·.map fun _ => Answer.done) id
  | .delete key, store =>
      match validateStorageKey key with
      | .error thrown => (.error thrown, store)
      | .ok _ => (.ok .done, store.remove key)
  | .list start, store =>
      match validateStorageKey start with
      | .error thrown => (.error thrown, store)
      | .ok _ =>
          let listed := listKeys now start store.map.keys store
          (.ok (.keys (sortKeys listed.1)), listed.2)
  | .compareAndSet key expected next options, store =>
      (compareAndSet now key expected next options store).map
        (·.map Answer.swapped) id
  | .getMany keys, store =>
      (getMany now keys store).map (·.map Answer.values) id
  | .setMany entries options, store =>
      (setMany now options entries store).map (·.map fun _ => Answer.done) id

/-- What a reader of the store finds. -/
def contents (store : MemoryStore) : Contents := fun reading key =>
  (store.map.get? key).bind fun entry =>
    if entry.exp.any (Number.reached reading.instant) then none
    else some entry.value

/-! ## Reads -/

/-- Every key of the store is text. -/
def Textual (store : MemoryStore) : Prop :=
  ∀ key ∈ store.map.keys, key.wellFormed = true

theorem remove_contents (store : MemoryStore) (key : JsString) :
    (store.remove key).contents = store.contents.put key none := by
  funext reading other
  simp only [contents, remove, OrderedMap.get?_delete, Contents.put,
    Function.update_apply, Option.bind_none]
  by_cases hother : other = key
  · simp only [if_pos hother, Option.bind_none]
  · simp only [if_neg hother]

theorem remove_keys {store : MemoryStore} {key other : JsString}
    (hother : other ∈ (store.remove key).map.keys) :
    other ∈ store.map.keys := by
  obtain ⟨value, hvalue⟩ := OrderedMap.mem_keys_iff.mp hother
  rw [remove, OrderedMap.get?_delete] at hvalue
  split at hvalue
  · cases hvalue
  · exact OrderedMap.mem_keys_iff.mpr ⟨value, hvalue⟩

/-- A fresh entry is what a reader finds; the others are gone for good. -/
theorem fresh_cases (now : Reading) (key : JsString) (store : MemoryStore) :
    (fresh now key store).1.map Entry.value = store.contents now key ∧
      ((fresh now key store).2 = store ∨
        (fresh now key store).2 = store.remove key ∧
          ∃ entry, store.map.get? key = some entry ∧
            entry.exp.any (Number.reached now.instant) = true) := by
  rw [fresh, contents]
  cases hentry : store.map.get? key with
  | none => exact ⟨rfl, .inl rfl⟩
  | some entry =>
      dsimp only
      by_cases hexp : entry.exp.any (Number.reached now.instant) = true
      · rw [if_pos hexp, Option.bind_some, if_pos hexp]
        exact ⟨rfl, .inr ⟨rfl, entry, rfl, hexp⟩⟩
      · rw [if_neg hexp, Option.bind_some, if_neg hexp]
        exact ⟨rfl, .inl rfl⟩

theorem fresh_value (now : Reading) (key : JsString) (store : MemoryStore) :
    (fresh now key store).1.map Entry.value = store.contents now key :=
  (fresh_cases now key store).1

theorem fresh_has (now : Reading) (key : JsString) (store : MemoryStore) :
    ((fresh now key store).2.map.get? key).isSome =
      (store.contents now key).isSome := by
  rw [fresh, contents]
  cases hentry : store.map.get? key with
  | none =>
      dsimp only
      rw [hentry]
      rfl
  | some entry =>
      dsimp only
      by_cases hexp : entry.exp.any (Number.reached now.instant) = true
      · rw [if_pos hexp, Option.bind_some, if_pos hexp, remove,
          OrderedMap.get?_delete, if_pos rfl]
        rfl
      · rw [if_neg hexp, Option.bind_some, if_neg hexp, hentry]
        rfl

theorem fresh_agree (now : Reading) (key : JsString) (store : MemoryStore) :
    Agree now store.contents (fresh now key store).2.contents := by
  rcases (fresh_cases now key store).2 with hsame | ⟨hremoved, entry, hentry, hexp⟩
  · rw [hsame]
    exact Agree.refl now _
  · rw [hremoved, remove_contents]
    intro reading hlater other _
    rw [Contents.put, Function.update_apply]
    split
    case isTrue hkey =>
      have hreached : entry.exp.any (Number.reached reading.instant) = true := by
        obtain ⟨instant, hinstant, hreached⟩ := (Option.any_eq_true _ _).mp hexp
        exact (Option.any_eq_true _ _).mpr
          ⟨instant, hinstant, Number.reached_mono hlater hreached⟩
      rw [hkey, contents, hentry, Option.bind_some, if_pos hreached]
      rfl
    case isFalse => rfl

theorem fresh_textual {now : Reading} {key : JsString} {store : MemoryStore}
    (htextual : store.Textual) : (fresh now key store).2.Textual := by
  rcases (fresh_cases now key store).2 with hsame | ⟨hremoved, -⟩
  · rw [hsame]
    exact htextual
  · rw [hremoved]
    exact fun other hother => htextual other (remove_keys hother)

/-- A sweep removes expired entries only. -/
theorem sweepKeys_agree (now : Reading) (count : ℕ) (store : MemoryStore) :
    Agree now store.contents (sweepKeys now count store).contents := by
  induction count generalizing store with
  | zero => exact Agree.refl now _
  | succ count ih =>
      rw [sweepKeys]
      cases store.map.keys[store.sweep]? with
      | none => exact Agree.refl now _
      | some key =>
          exact (fresh_agree now key { store with sweep := store.sweep + 1 }).trans
            (ih _)

theorem sweepKeys_textual {now : Reading} (count : ℕ) {store : MemoryStore}
    (htextual : store.Textual) : (sweepKeys now count store).Textual := by
  induction count generalizing store with
  | zero => exact htextual
  | succ count ih =>
      rw [sweepKeys]
      cases store.map.keys[store.sweep]? with
      | none => exact htextual
      | some key => exact ih (fresh_textual htextual)

/-! ## Writes -/

/-- A write's expiry is the deadline's, or its failure. -/
theorem writeExpiry_deadline {now : Reading} {options : WriteOptions}
    (hprecise : rounds now options = false) :
    (∃ thrown, deadline now options = .error thrown ∧
        writeExpiry now options = .error thrown) ∨
      ∃ instant exp, deadline now options = .ok instant ∧
        writeExpiry now options = .ok exp ∧ Ends exp instant := by
  obtain ⟨ttlSeconds, expiresAtMs⟩ := options
  cases expiresAtMs with
  | some instant =>
      cases ttlSeconds with
      | some ttl => cases instant <;> exact .inl ⟨invalidInstant, rfl, by
          simp [writeExpiry]⟩
      | none =>
          cases instant with
          | nan => exact .inl ⟨invalidInstant, rfl, rfl⟩
          | infinite negative => exact .inl ⟨invalidInstant, rfl, rfl⟩
          | finite instant =>
              by_cases hsafe : (Number.finite instant).isSafeInteger = true
              · refine .inr ⟨some instant, some (.finite instant), ?_, ?_,
                  ends_instant instant⟩
                · simp [deadline, hsafe]
                · simp [writeExpiry, hsafe, Number.isFinite]
              · refine .inl ⟨invalidInstant, ?_, ?_⟩
                · simp [deadline, hsafe]
                · simp [writeExpiry, hsafe]
  | none =>
      cases ttlSeconds with
      | none => exact .inr ⟨none, none, rfl, rfl, ends_never⟩
      | some ttl =>
          cases ttl with
          | nan => exact .inl ⟨invalidTtl, rfl, rfl⟩
          | infinite negative => exact .inl ⟨invalidTtl, rfl, rfl⟩
          | finite ttl =>
              by_cases hzero : ttl = 0
              · subst hzero
                refine .inr ⟨none, none, ?_, ?_, ends_never⟩
                · simp [deadline, Number.times_zero]
                · simp [writeExpiry, Number.truthy, Number.isFinite]
              · cases hmillis : (Number.finite ttl).times 1000 with
                | nan => exact absurd hmillis (Number.ofRat_ne_nan _)
                | infinite negative =>
                    refine .inl ⟨invalidTtl, ?_, ?_⟩
                    · simp [deadline, hmillis]
                    · simp [writeExpiry, Number.truthy, Number.isFinite, hzero,
                        hmillis, Number.plus]
                | finite millis =>
                    refine .inr ⟨_, _, ?_, ?_, ends_sum hprecise rfl hmillis⟩
                    · simp [deadline, hmillis, hzero]
                    · have hfinite := isFinite_plus now hmillis
                      simp [writeExpiry, Number.truthy, hzero, hmillis, hfinite]
                      rfl

theorem put_contents (store : MemoryStore) (key value : JsString)
    {exp : Option Number} {instant : Option ℚ} (hends : Ends exp instant) :
    ({ store with map := store.map.set key ⟨value, exp⟩ }).contents =
      store.contents.put key (some (value, instant)) := by
  funext reading other
  simp only [contents, OrderedMap.get?_set, Contents.put,
    Function.update_apply]
  by_cases hother : other = key
  · simp only [if_pos hother, Option.bind_some, hends reading]
    cases alive instant reading <;> rfl
  · simp only [if_neg hother]

theorem put_textual {store : MemoryStore} (htextual : store.Textual)
    {key : JsString} (hkey : key.wellFormed = true) (entry : Entry) :
    ({ store with map := store.map.set key entry }).Textual := by
  intro other hother
  obtain ⟨value, hvalue⟩ := OrderedMap.mem_keys_iff.mp hother
  rw [OrderedMap.get?_set] at hvalue
  split at hvalue
  case isTrue hsame => exact hsame ▸ hkey
  case isFalse => exact htextual other (OrderedMap.mem_keys_iff.mpr ⟨value, hvalue⟩)

/-- A write puts its entry, or throws what is wrong with its options. -/
theorem write_cases {now : Reading} {key value : JsString}
    {options : WriteOptions} {store : MemoryStore}
    (hprecise : rounds now options = false) (htextual : store.Textual)
    (hkey : key.wellFormed = true) :
    (∃ thrown, deadline now options = .error thrown ∧
        write now key value options store = (.error thrown, store)) ∨
      ∃ instant, deadline now options = .ok instant ∧
        (write now key value options store).1 = .ok () ∧
        Agree now (store.contents.put key (some (value, instant)))
          (write now key value options store).2.contents ∧
        (write now key value options store).2.Textual := by
  rw [write]
  rcases writeExpiry_deadline hprecise with
    ⟨thrown, hdeadline, hexpiry⟩ | ⟨instant, exp, hdeadline, hexpiry, hends⟩
  · rw [hexpiry]
    exact .inl ⟨thrown, hdeadline, rfl⟩
  · rw [hexpiry]
    refine .inr ⟨instant, hdeadline, rfl, ?_, ?_⟩
    · dsimp only
      rw [put_contents _ key value hends]
      exact (sweepKeys_agree now 16 store).put key _
    · exact put_textual (sweepKeys_textual 16 htextual) hkey _

/-! ## Operations -/

section Operations

variable {now : Reading} {store : MemoryStore}

theorem get_cases (key : JsString) (htextual : store.Textual) :
    (get now key store).1 =
        (validateStorageKey key).map (fun _ => store.contents now key) ∧
      Agree now store.contents (get now key store).2.contents ∧
      (get now key store).2.Textual := by
  rw [get]
  cases validateStorageKey key with
  | error thrown => exact ⟨rfl, Agree.refl now _, htextual⟩
  | ok =>
      refine ⟨?_, fresh_agree now key store, fresh_textual htextual⟩
      exact congrArg Except.ok (fresh_value now key store)

theorem getMany_cases (keys : List JsString)
    (hkeys : ∀ key ∈ keys, key.wellFormed = true) (htextual : store.Textual) :
    (getMany now keys store).1 = (keys.forM validateStorageKey).map
        (fun _ => keys.map (store.contents now)) ∧
      Agree now store.contents (getMany now keys store).2.contents ∧
      (getMany now keys store).2.Textual := by
  induction keys generalizing store with
  | nil => exact ⟨rfl, Agree.refl now _, htextual⟩
  | cons key rest ih =>
      obtain ⟨hvalue, hagree, hread⟩ := @get_cases now store key htextual
      have hforM : (key :: rest).forM validateStorageKey =
          (validateStorageKey key >>= fun _ =>
            rest.forM validateStorageKey) := rfl
      rw [getMany, hforM]
      generalize get now key store = found at hvalue hagree hread ⊢
      obtain ⟨result, read⟩ := found
      generalize validateStorageKey key = valid at hvalue ⊢
      cases valid with
      | error thrown =>
          subst hvalue
          exact ⟨rfl, hagree, hread⟩
      | ok =>
          subst hvalue
          obtain ⟨hothers, hlater, hlast⟩ := ih
            (fun other hother => hkeys other (List.mem_cons_of_mem _ hother))
            hread
          refine ⟨?_, hagree.trans hlater, hlast⟩
          have hsame : rest.map (read.contents now) =
              rest.map (store.contents now) :=
            List.map_congr_left fun other hother => (hagree.here
              (hkeys other (List.mem_cons_of_mem _ hother))).symm
          simp only [Except.map]
          rw [hothers, hsame]
          cases rest.forM validateStorageKey with
          | error thrown => rfl
          | ok => rfl

theorem set_cases {key value : JsString} {options : WriteOptions}
    (hprecise : rounds now options = false) (htextual : store.Textual)
    (hkey : key.wellFormed = true) :
    (∃ thrown, outcome now store.contents (.set key value options) =
          .error thrown ∧
        set now key value options store = (.error thrown, store)) ∨
      ∃ instant, outcome now store.contents (.set key value options) =
          .ok (store.contents.put key (some (value, instant))) ∧
        deadline now options = .ok instant ∧
        (set now key value options store).1 = .ok () ∧
        Agree now (store.contents.put key (some (value, instant)))
          (set now key value options store).2.contents ∧
        (set now key value options store).2.Textual := by
  rw [set]
  cases hvalid : validateStorageKey key with
  | error thrown =>
      refine .inl ⟨thrown, ?_, rfl⟩
      simp only [outcome, hvalid]
      rfl
  | ok =>
      rcases @write_cases now key value options store hprecise htextual hkey with
        ⟨thrown, hthrown, hwrite⟩ | ⟨instant, hinstant, hwrite⟩
      · refine .inl ⟨thrown, ?_, hwrite⟩
        simp only [outcome, hvalid, hthrown]
        rfl
      · refine .inr ⟨instant, ?_, hinstant, hwrite⟩
        simp only [outcome, hvalid, hinstant]
        rfl

/-- Entries written one after the other, none of which is refused. -/
theorem setMany_ok {options : WriteOptions} {instant : Option ℚ}
    (hprecise : rounds now options = false)
    (hdeadline : deadline now options = .ok instant)
    (entries : List (JsString × JsString))
    (hkeys : ∀ entry ∈ entries, 0 ∉ entry.1 ∧ entry.1.wellFormed = true)
    (htextual : store.Textual) :
    (setMany now options entries store).1 = .ok () ∧
      Agree now
        (entries.foldl
          (fun contents entry => contents.put entry.1 (some (entry.2, instant)))
          store.contents)
        (setMany now options entries store).2.contents ∧
      (setMany now options entries store).2.Textual := by
  induction entries generalizing store with
  | nil => exact ⟨rfl, Agree.refl now _, htextual⟩
  | cons entry rest ih =>
      obtain ⟨hnul, hkey⟩ := hkeys entry List.mem_cons_self
      rcases @set_cases now store entry.1 entry.2 options hprecise htextual hkey
        with ⟨thrown, hthrown, -⟩ | ⟨written, -, hwritten, hset, hagree, hread⟩
      · simp only [outcome, validateStorageKey, if_neg hnul, hdeadline] at hthrown
        cases hthrown
      · rw [hdeadline] at hwritten
        cases hwritten
        rw [setMany]
        generalize set now entry.1 entry.2 options store = outcome
          at hset hagree hread ⊢
        obtain ⟨result, next⟩ := outcome
        subst hset
        obtain ⟨hrest, hlater, hlast⟩ := ih
          (fun other hother => hkeys other (List.mem_cons_of_mem _ hother))
          hread
        exact ⟨hrest, (hagree.putMany rest instant).trans hlater, hlast⟩

/-- The filter of `list` keeps the keys a reader finds. -/
theorem listKeys_cases (start : JsString) (keys : List JsString)
    (hkeys : ∀ key ∈ keys, key.wellFormed = true) (htextual : store.Textual) :
    (listKeys now start keys store).1 = keys.filter (fun key =>
        start.isPrefixOf key && (store.contents now key).isSome) ∧
      Agree now store.contents (listKeys now start keys store).2.contents ∧
      (listKeys now start keys store).2.Textual := by
  induction keys generalizing store with
  | nil => exact ⟨rfl, Agree.refl now _, htextual⟩
  | cons key rest ih =>
      have hagree := fresh_agree now key store
      obtain ⟨hrest, hlater, hlast⟩ := ih
        (fun other hother => hkeys other (List.mem_cons_of_mem _ hother))
        (@fresh_textual now key store htextual)
      rw [listKeys]
      refine ⟨?_, hagree.trans hlater, hlast⟩
      have hhas := fresh_has now key store
      have hsame : rest.filter (fun other => start.isPrefixOf other &&
            ((fresh now key store).2.contents now other).isSome) =
          rest.filter (fun other => start.isPrefixOf other &&
            (store.contents now other).isSome) := by
        refine List.filter_congr fun other hother => ?_
        rw [hagree.here (hkeys other (List.mem_cons_of_mem _ hother))]
      simp only [hrest, hsame, hhas, List.filter_cons]

theorem lists_listKeys (start : JsString) (htextual : store.Textual) :
    Lists now store.contents start
      (sortKeys (listKeys now start store.map.keys store).1) := by
  obtain ⟨hlisted, -⟩ :=
    listKeys_cases start store.map.keys htextual htextual
  have hperm := List.mergeSort_perm
    (listKeys now start store.map.keys store).1
    (fun left right => decide (left ≤ right))
  refine ⟨sortKeys_pairwise _, ?_, ?_⟩
  · rw [sortKeys, hperm.nodup_iff, hlisted]
    exact store.map.nodup.filter _
  · intro key
    rw [sortKeys, hperm.mem_iff, hlisted, List.mem_filter, Bool.and_eq_true,
      List.isPrefixOf_iff_prefix]
    constructor
    · rintro ⟨hmem, hstart, hfound⟩
      exact ⟨htextual key hmem, hstart, hfound⟩
    · rintro ⟨-, hstart, hfound⟩
      refine ⟨?_, hstart, hfound⟩
      obtain ⟨value, hvalue⟩ := Option.isSome_iff_exists.mp hfound
      obtain ⟨entry, hentry, -⟩ := Option.bind_eq_some_iff.mp hvalue
      exact OrderedMap.mem_keys_iff.mpr ⟨entry, hentry⟩

theorem compareAndSet_refines {key : JsString} {expected next : Option JsString}
    {options : WriteOptions} (hprecise : rounds now options = false)
    (htextual : store.Textual) (hkey : key.wellFormed = true) :
    Refines now store.contents (.compareAndSet key expected next options)
        ((compareAndSet now key expected next options store).1.map
          Answer.swapped)
        (compareAndSet now key expected next options store).2.contents ∧
      (compareAndSet now key expected next options store).2.Textual := by
  rw [compareAndSet]
  cases hvalid : validateStorageKey key with
  | error thrown =>
      refine ⟨Refines.refused ?_ (Agree.refl now _), htextual⟩
      simp only [outcome, hvalid]
      rfl
  | ok =>
      have hagree := fresh_agree now key store
      have hread := @fresh_textual now key store htextual
      dsimp only
      rw [fresh_value]
      by_cases hfound : store.contents now key = expected
      · rw [if_neg (not_not.mpr hfound)]
        cases next with
        | none =>
            refine ⟨@Refines.answered _ _ (store.contents.put key none) _ _ _
              ?_ ?_ ?_, ?_⟩
            · simp only [outcome, hvalid, if_pos hfound]
              rfl
            · exact congrArg Answer.swapped (decide_eq_true hfound).symm
            · rw [remove_contents]
              exact hagree.put key none
            · exact fun other hother => hread other (remove_keys hother)
        | some value =>
            rcases @write_cases now key value options _ hprecise hread hkey with
              ⟨thrown, hthrown, hwrite⟩ |
              ⟨instant, hinstant, hwrite, hput, hwritten⟩
            · dsimp only
              rw [hwrite]
              refine ⟨Refines.refused ?_ hagree, hread⟩
              simp only [outcome, hvalid, if_pos hfound, hthrown]
              rfl
            · dsimp only
              rw [hwrite]
              refine ⟨@Refines.answered _ _
                (store.contents.put key (some (value, instant))) _ _ _
                ?_ ?_ ?_, hwritten⟩
              · simp only [outcome, hvalid, if_pos hfound, hinstant]
                rfl
              · exact congrArg Answer.swapped (decide_eq_true hfound).symm
              · exact (hagree.put key _).trans hput
      · rw [if_pos hfound]
        refine ⟨Refines.answered ?_ ?_ hagree, hread⟩
        · simp only [outcome, hvalid, if_neg hfound]
          rfl
        · exact congrArg Answer.swapped (decide_eq_false hfound).symm

theorem setMany_refines {entries : List (JsString × JsString)}
    {options : WriteOptions} (hprecise : rounds now options = false)
    (htogether : Together now entries options) (htextual : store.Textual)
    (hkeys : ∀ entry ∈ entries, entry.1.wellFormed = true) :
    Refines now store.contents (.setMany entries options)
        ((setMany now options entries store).1.map fun _ => Answer.done)
        (setMany now options entries store).2.contents ∧
      (setMany now options entries store).2.Textual := by
  have hfew : ¬64 < entries.length := not_lt.mpr htogether.few
  have hforM := validateStorageKey_forM entries Prod.fst
  by_cases hnul : ∃ entry ∈ entries, 0 ∈ entry.1
  · rw [if_pos hnul] at hforM
    have hthrown : outcome now store.contents (.setMany entries options) =
        .error nulInKey := by
      simp only [outcome, if_neg hfew, hforM]
      rfl
    cases entries with
    | nil => exact absurd hnul (by simp)
    | cons entry rest =>
        have hfirst : 0 ∈ entry.1 := by
          obtain ⟨other, hother, hmem⟩ := hnul
          cases List.mem_cons.mp hother with
          | inl hsame => exact hsame ▸ hmem
          | inr hrest => exact absurd hmem (htogether.later other hrest)
        have hset : set now entry.1 entry.2 options store =
            (.error nulInKey, store) := by
          rw [set, validateStorageKey, if_pos hfirst]
        rw [setMany, hset]
        exact ⟨Refines.refused hthrown (Agree.refl now _), htextual⟩
  · rw [if_neg hnul] at hforM
    cases hdeadline : deadline now options with
    | ok instant =>
        obtain ⟨hdone, hagree, hlast⟩ := setMany_ok hprecise hdeadline entries
          (fun entry hentry => ⟨fun hmem => hnul ⟨entry, hentry, hmem⟩,
            hkeys entry hentry⟩) htextual
        rw [hdone]
        refine ⟨Refines.answered ?_ rfl hagree, hlast⟩
        simp only [outcome, if_neg hfew, hforM, hdeadline]
        rfl
    | error thrown =>
        have hthrown : outcome now store.contents (.setMany entries options) =
            .error thrown := by
          simp only [outcome, if_neg hfew, hforM, hdeadline]
          rfl
        cases entries with
        | nil =>
            obtain ⟨instant, hinstant⟩ := htogether.checked rfl
            rw [hdeadline] at hinstant
            cases hinstant
        | cons entry rest =>
            have hfirst : 0 ∉ entry.1 := fun hmem =>
              hnul ⟨entry, List.mem_cons_self, hmem⟩
            rcases @set_cases now store entry.1 entry.2 options hprecise
                htextual (hkeys entry List.mem_cons_self) with
              ⟨other, hother, hset⟩ | ⟨instant, -, hinstant, -⟩
            · simp only [outcome, validateStorageKey, if_neg hfirst,
                hdeadline] at hother
              cases hother
              rw [setMany, hset]
              exact ⟨Refines.refused hthrown (Agree.refl now _), htextual⟩
            · rw [hdeadline] at hinstant
              cases hinstant

/-- The memory store is the map. -/
theorem perform_refines {operation : Operation}
    (hregular : Regular now operation) (htextual : store.Textual) :
    Refines now store.contents operation (perform now operation store).1
        (perform now operation store).2.contents ∧
      (perform now operation store).2.Textual := by
  cases operation with
  | get key =>
      obtain ⟨hvalue, hagree, hread⟩ := @get_cases now store key htextual
      refine ⟨?_, hread⟩
      simp only [perform, Prod.map_fst, Prod.map_snd, id_eq, hvalue]
      cases hvalid : validateStorageKey key with
      | error thrown =>
          refine Refines.refused ?_ hagree
          simp only [outcome, hvalid]
          rfl
      | ok =>
          refine Refines.answered ?_ rfl hagree
          simp only [outcome, hvalid]
          rfl
  | set key value options =>
      have hkey := hregular.wellFormed key List.mem_cons_self
      simp only [perform, Prod.map_fst, Prod.map_snd, id_eq]
      rcases @set_cases now store key value options
          (hregular.precise options rfl) htextual hkey with
        ⟨thrown, hthrown, hset⟩ | ⟨instant, houtcome, -, hset, hagree, hread⟩
      · rw [hset]
        exact ⟨Refines.refused hthrown (Agree.refl now _), htextual⟩
      · rw [hset]
        exact ⟨Refines.answered houtcome rfl hagree, hread⟩
  | delete key =>
      rw [perform]
      cases hvalid : validateStorageKey key with
      | error thrown =>
          refine ⟨Refines.refused ?_ (Agree.refl now _), htextual⟩
          simp only [outcome, hvalid]
          rfl
      | ok =>
          refine ⟨@Refines.answered _ _ (store.contents.put key none) _ _ _
            ?_ rfl ?_, ?_⟩
          · simp only [outcome, hvalid]
            rfl
          · rw [remove_contents]
            exact Agree.refl now _
          · exact fun other hother => htextual other (remove_keys hother)
  | list start =>
      rw [perform]
      cases hvalid : validateStorageKey start with
      | error thrown =>
          refine ⟨Refines.refused ?_ (Agree.refl now _), htextual⟩
          simp only [outcome, hvalid]
          rfl
      | ok =>
          obtain ⟨-, hagree, hread⟩ :=
            @listKeys_cases now store start store.map.keys htextual htextual
          refine ⟨Refines.answered ?_ ?_ hagree, hread⟩
          · simp only [outcome, hvalid]
            rfl
          · exact ⟨_, rfl, lists_listKeys start htextual⟩
  | compareAndSet key expected next options =>
      exact compareAndSet_refines (hregular.precise options rfl) htextual
        (hregular.wellFormed key List.mem_cons_self)
  | getMany keys =>
      obtain ⟨hvalues, hagree, hread⟩ :=
        @getMany_cases now store keys hregular.wellFormed htextual
      refine ⟨?_, hread⟩
      simp only [perform, Prod.map_fst, Prod.map_snd, id_eq, hvalues]
      cases hvalid : keys.forM validateStorageKey with
      | error thrown =>
          refine Refines.refused ?_ hagree
          simp only [outcome, hvalid]
          rfl
      | ok =>
          refine Refines.answered ?_ rfl hagree
          simp only [outcome, hvalid]
          rfl
  | setMany entries options =>
      refine setMany_refines (hregular.precise options rfl)
        (hregular.together entries options rfl) htextual ?_
      intro entry hentry
      exact hregular.wellFormed entry.1
        (List.mem_flatMap.mpr ⟨entry, hentry, List.mem_cons_self⟩)

end Operations

end MemoryStore

end Connecta.Storage
