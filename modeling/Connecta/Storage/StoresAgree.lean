import Connecta.Storage.MemoryStorage
import Connecta.Storage.SqlStorage

/-!
# Two stores, one map

The memory store removes what it finds expired and sweeps what it passes; the
SQL store sweeps some expired rows and reads past the others.  Both implement
the map, so neither their sweeps nor the rows left unswept change an answer.
-/

namespace Connecta.Storage

open Connecta.Runtime

theorem memory_implements :
    Implements MemoryStore.perform MemoryStore.contents MemoryStore.Textual where
  refines _ _ _ hregular htextual :=
    (MemoryStore.perform_refines hregular htextual).1
  valid _ _ _ hregular htextual :=
    (MemoryStore.perform_refines hregular htextual).2

theorem sql_implements (driver : Driver) :
    Implements (SqlStore.perform driver) SqlStore.contents SqlStore.Encoded where
  refines _ _ _ hregular hencoded :=
    (SqlStore.perform_refines hregular hencoded).1
  valid _ _ _ hregular hencoded :=
    (SqlStore.perform_refines hregular hencoded).2

/-! ## Expired rows -/

/-- A table without the rows that have expired. -/
def purge (now : Reading) (table : Table) : Table :=
  (table.entries.filter fun row => row.2.expired now).foldl
    (fun table row => table.delete row.1) table

/-- The SQL store on a table that each operation finds purged. -/
def performPurged (driver : Driver) : Behaviour Table :=
  fun now operation table => SqlStore.perform driver now operation (purge now table)

theorem purged_implements (driver : Driver) :
    Implements (performPurged driver) SqlStore.contents SqlStore.Encoded := by
  have hexpired : ∀ (now : Reading) (table : Table),
      ∀ row ∈ table.entries.filter (fun row => row.2.expired now),
        row ∈ table.entries ∧ row.2.expired now = true :=
    fun _ _ _ hrow => List.mem_filter.mp hrow
  constructor
  · intro now operation table hregular hencoded
    have hagree := SqlStore.deleteExpired_agree (hexpired now table)
    exact ((sql_implements driver).refines now operation (purge now table)
      hregular (SqlStore.deleteExpired_encoded (hexpired now table)
        hencoded)).transfer hagree hregular.readKeys
  · intro now operation table hregular hencoded
    exact (sql_implements driver).valid now operation _ hregular
      (SqlStore.deleteExpired_encoded (hexpired now table) hencoded)

/-! ## A driver -/

/-- A driver that reads a text as the string its bytes spell. -/
def plainDriver : Driver where
  text bytes := (decodeText bytes).getD []
  text_utf8 value hvalue := by
    rw [decodeText_utf8 hvalue]
    exact .inl rfl
  order rows := rows
  perm rows := List.Perm.refl rows

def durable : WriteOptions := ⟨none, none⟩

/-- An expiry a second after the epoch. -/
def untilSecond : WriteOptions := ⟨none, some (.finite 1000)⟩

def atInstant (instant : ℕ) (hbound : instant ≤ 8640000000000000) : Reading :=
  ⟨instant, by
    rw [Nat.abs_cast]
    exact_mod_cast hbound⟩

def epoch : Reading := atInstant 0 (by decide)

/-! ## The stores agree -/

/-- The memory store and the SQL store answer every run alike, errors and lists
included, and leave readers the same map; no answer depends on a row that has
expired. -/
theorem stores_agree (driver : Driver) (steps : List (Reading × Operation))
    (hordered : steps.Pairwise fun earlier later =>
      earlier.1.instant ≤ later.1.instant)
    (hregular : ∀ step ∈ steps, Regular step.1 step.2) :
    (run MemoryStore.perform steps .empty).1 =
        (run (SqlStore.perform driver) steps .empty).1 ∧
      (∀ now : Reading, (∀ step ∈ steps, step.1.instant ≤ now.instant) →
        Agree now (run MemoryStore.perform steps .empty).2.contents
          (SqlStore.contents (run (SqlStore.perform driver) steps .empty).2)) ∧
      (run (performPurged driver) steps .empty).1 =
        (run (SqlStore.perform driver) steps .empty).1 := by
  have hstart : ∀ step ∈ steps, (-8640000000000000 : ℤ) ≤ step.1.instant :=
    fun step _ => (abs_le.mp step.1.bound).1
  have hempty : ∀ now : Reading, Agree now MemoryStore.empty.contents
      (SqlStore.contents Foundation.OrderedMap.empty) := fun _ _ _ _ _ => rfl
  obtain ⟨hanswers, hleft⟩ := memory_implements.run_agree (sql_implements driver)
    hstart hordered hregular (fun _ hkey => absurd hkey List.not_mem_nil)
    SqlStore.encoded_empty (fun now _ => hempty now)
  have hpurged := ((purged_implements driver).run_agree (sql_implements driver)
    hstart hordered hregular SqlStore.encoded_empty SqlStore.encoded_empty
    (fun now _ => Agree.refl now _)).1
  exact ⟨hanswers, fun now hlater => hleft now (abs_le.mp now.bound).1 hlater,
    hpurged⟩

/-- An entry set with an expiry and read at it. -/
theorem stores_agree_expired :
    (run MemoryStore.perform [(epoch, .set [107] [118] untilSecond),
        (atInstant 1000 (by decide), .get [107])] .empty).1 =
      (run (SqlStore.perform plainDriver) [(epoch, .set [107] [118] untilSecond),
        (atInstant 1000 (by decide), .get [107])] .empty).1 := by
  refine (stores_agree plainDriver _ ?_ ?_).1
  · simp [epoch, atInstant]
  · intro step hstep
    rcases List.mem_pair.mp hstep with rfl | rfl
    · refine ⟨by decide, by decide, fun options hoptions => ?_, nofun⟩
      rw [← Option.some.inj hoptions]
      rfl
    · exact ⟨by decide, by decide, nofun, nofun⟩

/-! ## Where the stores differ -/

/-- Whether both stores answer a run alike. -/
def alike (steps : List (Reading × Operation)) : Prop :=
  (run MemoryStore.perform steps .empty).1 =
    (run (SqlStore.perform plainDriver) steps .empty).1

instance (steps : List (Reading × Operation)) : Decidable (alike steps) :=
  inferInstanceAs (Decidable (_ = _))

/-- The stores differ on a clock that goes back over an expiry, on surrogates
without their partner, on more than sixty-four entries, on entries of which a
later one is refused, on invalid options for no entries, and on listing the
empty key. -/
theorem stores_differ :
    ¬alike [(epoch, .set [107] [118] untilSecond),
        (atInstant 2000 (by decide), .get [107]),
        (atInstant 500 (by decide), .get [107])] ∧
      ¬alike [(epoch, .set [0xD800] [118] durable), (epoch, .get [0xD801])] ∧
      ¬alike [(epoch, .setMany (List.replicate 65 ([107], [118])) durable)] ∧
      ¬alike [(epoch, .setMany [([107], [118]), ([0], [118])] durable),
        (epoch, .get [107])] ∧
      ¬alike [(epoch, .setMany [] ⟨some .nan, none⟩)] ∧
      ¬alike [(epoch, .set [] [118] durable), (epoch, .list [])] := by
  refine ⟨?_, ?_, ?_, ?_, ?_, ?_⟩
  · decide
  · decide
  · decide
  · decide
  · decide
  · intro halike
    have hlisted : (Except.ok (Answer.keys (sortKeys [[]])) :
        Except Thrown Answer) = .ok (.keys (sortKeys [])) :=
      (List.cons.inj (List.cons.inj halike).2).1
    simp [sortKeys] at hlisted

end Connecta.Storage
