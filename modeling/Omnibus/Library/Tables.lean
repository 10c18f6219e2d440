import Mathlib.Data.Option.Basic

/-!
# Tables under an AUTOINCREMENT key

A new row's key is above every key the table has given, also after the row that had it is gone.
-/

namespace Omnibus.Library.Tables

structure Table (Row : Type*) where
  seq : Nat
  get : Nat → Option Row
  given : ∀ key, seq < key → get key = none

namespace Table

variable {Row : Type*}

def empty : Table Row := ⟨0, fun _ => none, fun _ _ => rfl⟩

def rows (table : Table Row) : List Row := (List.range (table.seq + 1)).filterMap table.get

def insert (table : Table Row) (row : Row) : Table Row where
  seq := table.seq + 1
  get := fun key => if key = table.seq + 1 then some row else table.get key
  given := by
    intro key above
    rw [if_neg (Nat.ne_of_gt above), table.given key (Nat.lt_of_succ_lt above)]

/-- Each row becomes what the change makes of it, or is deleted. -/
def alter (table : Table Row) (change : Nat → Row → Option Row) : Table Row where
  seq := table.seq
  get := fun key => (table.get key).bind (change key)
  given := fun key above => by rw [table.given key above, Option.bind_none]

theorem get_le {table : Table Row} {key : Nat} {row : Row} (found : table.get key = some row) :
    key ≤ table.seq := by
  by_contra above
  rw [table.given key (Nat.lt_of_not_le above)] at found
  cases found

end Table

end Omnibus.Library.Tables
