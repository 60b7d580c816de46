import Mathlib

/-!
# A store whose entries expire

A map from keys to values, each with an optional instant from which it is
absent.  Compare-and-set is atomic, reads an expired entry as absent and
replaces the entry, its expiry included.
-/

namespace Connecta.ExpiringStore

structure Entry (Value : Type*) where
  value : Value
  expiresAt : Option ℕ
  deriving DecidableEq

/-- An entry is absent from the instant it expires. -/
def Entry.live {Value : Type*} (entry : Entry Value) (now : ℕ) : Bool :=
  entry.expiresAt.all fun instant => now < instant

abbrev Store (Key Value : Type*) := Key → Option (Entry Value)

variable {Key Value : Type*} [DecidableEq Key] [DecidableEq Value]

/-- What a reader finds at an instant. -/
def read (store : Store Key Value) (now : ℕ) (key : Key) : Option Value :=
  match store key with
  | none => none
  | some entry => if entry.live now then some entry.value else none

/-- The value to write, absent where the key is deleted. -/
def put (store : Store Key Value) (key : Key) (next : Option Value)
    (expiresAt : Option ℕ) : Store Key Value :=
  Function.update store key (next.map fun value => ⟨value, expiresAt⟩)

def compareAndSet (store : Store Key Value) (now : ℕ) (key : Key)
    (expected next : Option Value) (expiresAt : Option ℕ) :
    Bool × Store Key Value :=
  if read store now key = expected then (true, put store key next expiresAt)
  else (false, store)

/-- What an expired entry last held. -/
def lapsed (store : Store Key Value) (now : ℕ) (key : Key) : Option Value :=
  match store key with
  | none => none
  | some entry => if entry.live now then none else some entry.value

omit [DecidableEq Key] [DecidableEq Value] in
/-- What was last written is read, or it has lapsed. -/
theorem raw_cases (store : Store Key Value) (now : ℕ) (key : Key) :
    (store key).map Entry.value = read store now key ∧
        lapsed store now key = none ∨
      (store key).map Entry.value = lapsed store now key ∧
        read store now key = none := by
  simp only [read, lapsed]
  cases store key with
  | none => exact Or.inl ⟨rfl, rfl⟩
  | some entry =>
      by_cases hlive : entry.live now = true
      · apply Or.inl
        simp [hlive]
      · apply Or.inr
        simp [hlive]

omit [DecidableEq Key] [DecidableEq Value] in
theorem raw_of_read {store : Store Key Value} {now : ℕ} {key : Key}
    {value : Value} (hread : read store now key = some value) :
    (store key).map Entry.value = some value := by
  cases raw_cases store now key with
  | inl hfresh => rw [hfresh.1, hread]
  | inr hlapsed => rw [hlapsed.2] at hread; cases hread

omit [DecidableEq Key] [DecidableEq Value] in
/-- Where nothing has lapsed, a reader finds what was last written. -/
theorem raw_of_fresh {store : Store Key Value} {now : ℕ} {key : Key}
    (hfresh : lapsed store now key = none) :
    (store key).map Entry.value = read store now key := by
  cases raw_cases store now key with
  | inl hread => exact hread.1
  | inr hlapsed => rw [hlapsed.1, hlapsed.2, hfresh]

theorem compareAndSet_cases (store : Store Key Value) (now : ℕ) (key : Key)
    (expected next : Option Value) (expiresAt : Option ℕ) :
    (read store now key = expected ∧
        compareAndSet store now key expected next expiresAt =
          (true, put store key next expiresAt)) ∨
      (read store now key ≠ expected ∧
        compareAndSet store now key expected next expiresAt = (false, store)) := by
  unfold compareAndSet
  by_cases hread : read store now key = expected
  · exact Or.inl ⟨hread, if_pos hread⟩
  · exact Or.inr ⟨hread, if_neg hread⟩

omit [DecidableEq Value] in
@[simp]
theorem put_self (store : Store Key Value) (key : Key) (next : Option Value)
    (expiresAt : Option ℕ) :
    put store key next expiresAt key =
      next.map fun value => ⟨value, expiresAt⟩ :=
  Function.update_self key _ store

omit [DecidableEq Value] in
theorem put_of_ne (store : Store Key Value) {key other : Key}
    (hother : other ≠ key) (next : Option Value) (expiresAt : Option ℕ) :
    put store key next expiresAt other = store other :=
  Function.update_of_ne hother _ store

end Connecta.ExpiringStore
