import Mathlib.Data.List.Perm.Basic
import Mathlib.Data.List.Pairwise
import Mathlib.Data.List.Nodup

/-!
# Tables of rows under unique keys

A row is a value for each column and a table is a list of rows, each under the rowid it
was stored at; the order of the list carries no meaning. An update maps the rows it
selects, a delete filters them out, and an insert appends. A unique key is a list of
columns no two rows agree on, where NULL agrees with nothing.
-/

namespace Omnibus.Library.Sql

inductive Value where
  | null
  | integer (number : Int)
  | real (number : Rat)
  | text (content : String)
  deriving DecidableEq, Repr

namespace Value

/-- `=`, which is not true of NULL. -/
def equals (left right : Value) : Bool := left ≠ null && left = right

/-- `<=`: numbers by size, then text by code point, and not true of NULL. -/
def atMost : Value → Value → Bool
  | null, _ => false
  | _, null => false
  | integer left, integer right => left ≤ right
  | integer left, real right => (left : Rat) ≤ right
  | real left, integer right => left ≤ (right : Rat)
  | real left, real right => left ≤ right
  | text left, text right => left ≤ right
  | text _, _ => false
  | _, text _ => true

/-- `+` between INTEGER columns. -/
def plus : Value → Value → Value
  | integer left, integer right => integer (left + right)
  | _, _ => null

/-- `MAX(0, left - right)` between INTEGER columns. -/
def minusToZero : Value → Value → Value
  | integer left, integer right => integer (max 0 (left - right))
  | _, _ => null

def coalesce (first second : Value) : Value := if first = null then second else first

theorem equals_iff (left right : Value) :
    left.equals right = true ↔ left ≠ null ∧ left = right := by
  simp [equals]

theorem equals_comm (left right : Value) : left.equals right = right.equals left := by
  rw [Bool.eq_iff_iff, equals_iff, equals_iff]
  constructor
  · intro ⟨present, equal⟩
    subst equal
    exact ⟨present, rfl⟩
  · intro ⟨present, equal⟩
    subst equal
    exact ⟨present, rfl⟩

@[simp] theorem equals_text (value : Value) (content : String) :
    value.equals (text content) = true ↔ value = text content := by
  rw [equals_iff]
  constructor
  · intro ⟨_, same⟩
    exact same
  · intro equal
    subst equal
    exact ⟨nofun, rfl⟩

def IsInteger (value : Value) : Prop := ∃ number, value = integer number

/-- A counter: an INTEGER that is not negative. -/
def IsCount (value : Value) : Prop := ∃ count : Nat, value = integer count

def IsReal (value : Value) : Prop := ∃ number, value = real number

instance (value : Value) : Decidable value.IsReal :=
  match value with
  | real number => isTrue ⟨number, rfl⟩
  | null | integer _ | text _ => isFalse nofun

instance (value : Value) : Decidable value.IsInteger :=
  match value with
  | integer number => isTrue ⟨number, rfl⟩
  | null | real _ | text _ => isFalse nofun

instance (value : Value) : Decidable value.IsCount :=
  match value with
  | integer (.ofNat count) => isTrue ⟨count, rfl⟩
  | integer (.negSucc _) => isFalse nofun
  | null | real _ | text _ => isFalse nofun

end Value

abbrev Row (Column : Type*) := Column → Value

def Row.of {Column : Type*} [DecidableEq Column] (entries : List (Column × Value)) : Row Column :=
  fun column => (entries.lookup column).getD .null

theorem Row.of_unlisted {Column : Type*} [DecidableEq Column] (entries : List (Column × Value))
    (columns : List Column) (listed : ∀ entry ∈ entries, entry.1 ∈ columns) {column : Column}
    (unlisted : column ∉ columns) : Row.of entries column = .null := by
  have missing : entries.lookup column = none := by
    rw [List.lookup_eq_none_iff]
    intro ⟨other, value⟩ member
    simp only [bne_iff_ne, ne_eq]
    intro equal
    subst equal
    exact unlisted (listed _ member)
  simp [Row.of, missing]

theorem Row.of_mem {Column : Type*} [DecidableEq Column] (entries : List (Column × Value))
    {column : Column} (present : Row.of entries column ≠ .null) :
    (column, Row.of entries column) ∈ entries := by
  cases found : entries.lookup column with
  | none => exact absurd (by simp [Row.of, found]) present
  | some value =>
      rw [Row.of, found]
      obtain ⟨before, after, split, _⟩ := List.lookup_eq_some_iff.mp found
      simp [split]

section Keys

variable {Column : Type*}

def agree (key : List Column) (left right : Row Column) : Bool :=
  key.all fun column => (left column).equals (right column)

def Keyed (keys : List (List Column)) (rows : List (Row Column)) : Prop :=
  rows.Pairwise fun left right => ∀ key ∈ keys, agree key left right = false

instance (keys : List (List Column)) (rows : List (Row Column)) :
    Decidable (Keyed keys rows) :=
  inferInstanceAs (Decidable (rows.Pairwise _))

theorem agree_iff (key : List Column) (left right : Row Column) :
    agree key left right = true ↔
      ∀ column ∈ key, left column ≠ .null ∧ left column = right column := by
  simp [agree, Value.equals_iff]

theorem agree_comm (key : List Column) (left right : Row Column) :
    agree key left right = agree key right left := by
  simp only [agree, Value.equals_comm]

theorem agree_trans {key : List Column} {first second third : Row Column}
    (left : agree key first second = true) (right : agree key second third = true) :
    agree key first third = true := by
  rw [agree_iff] at *
  intro column member
  exact ⟨(left column member).1, (left column member).2.trans (right column member).2⟩

theorem agree_congr {key : List Column} {first second first' second' : Row Column}
    (left : ∀ column ∈ key, first column = first' column)
    (right : ∀ column ∈ key, second column = second' column) :
    agree key first second = agree key first' second' := by
  rw [Bool.eq_iff_iff, agree_iff, agree_iff]
  constructor
  all_goals
    intro agreed column member
    have same := agreed column member
    simp_all

namespace Keyed

variable {keys : List (List Column)} {rows others : List (Row Column)}

instance symmetric :
    Std.Symm fun left right : Row Column => ∀ key ∈ keys, agree key left right = false where
  symm left right apart key member := by
    rw [agree_comm]
    exact apart key member

theorem perm (keyed : Keyed keys rows) (same : rows.Perm others) : Keyed keys others :=
  (same.pairwise_iff fun {_ _} apart => symmetric.symm _ _ apart).mp keyed

theorem sublist (keyed : Keyed keys rows) (within : others.Sublist rows) :
    Keyed keys others :=
  List.Pairwise.sublist within keyed

theorem map (keyed : Keyed keys rows) (f : Row Column → Row Column)
    (kept : ∀ row ∈ rows, ∀ key ∈ keys, ∀ column ∈ key, f row column = row column) :
    Keyed keys (rows.map f) := by
  rw [Keyed, List.pairwise_map]
  refine List.Pairwise.imp_of_mem (fun {left right} leftMem rightMem apart key member => ?_) keyed
  rw [agree_congr (kept left leftMem key member) (kept right rightMem key member)]
  exact apart key member

theorem append_iff :
    Keyed keys (rows ++ others) ↔ Keyed keys rows ∧ Keyed keys others ∧
      ∀ left ∈ rows, ∀ right ∈ others, ∀ key ∈ keys, agree key left right = false :=
  List.pairwise_append

theorem map_append (keyed : Keyed keys (rows ++ others)) (f : Row Column → Row Column)
    (kept : ∀ row ∈ rows, ∀ key ∈ keys, ∀ column ∈ key, f row column = row column) :
    Keyed keys (rows.map f ++ others) := by
  rw [append_iff] at keyed ⊢
  refine ⟨keyed.1.map f kept, keyed.2.1, fun left leftMem right rightMem key member => ?_⟩
  obtain ⟨row, rowMem, rfl⟩ := List.mem_map.mp leftMem
  rw [agree_congr (kept row rowMem key member) fun _ _ => rfl]
  exact keyed.2.2 row rowMem right rightMem key member

theorem eq_of_agree (keyed : Keyed keys rows) {left right : Row Column}
    (leftMem : left ∈ rows) (rightMem : right ∈ rows) (key : List Column) (member : key ∈ keys)
    (agreed : agree key left right = true) : left = right := by
  by_contra different
  have apart := List.Pairwise.forall keyed leftMem rightMem different key member
  rw [agreed] at apart
  cases apart

theorem eq_singleton (keyed : Keyed keys rows) {row : Row Column} (member : row ∈ rows)
    (key : List Column) (isKey : key ∈ keys)
    (agreed : ∀ other ∈ rows, agree key other row = true) : rows = [row] := by
  obtain ⟨before, after, rfl⟩ := List.append_of_mem member
  have apart := append_iff.mp keyed
  have noBefore : before = [] := by
    apply List.eq_nil_iff_forall_not_mem.mpr
    intro other inside
    have clash := apart.2.2 other inside row List.mem_cons_self key isKey
    rw [agreed other (by simp [inside])] at clash
    cases clash
  have noAfter : after = [] := by
    apply List.eq_nil_iff_forall_not_mem.mpr
    intro other inside
    have clash := (List.pairwise_cons.mp apart.2.1).1 other inside key isKey
    rw [agree_comm, agreed other (by simp [inside])] at clash
    cases clash
  rw [noBefore, noAfter, List.nil_append]

end Keyed

end Keys

section Tables

structure Record (Column : Type*) where
  rowid : Int
  row : Row Column

/-- The records and the largest rowid `AUTOINCREMENT` has handed out. -/
structure Table (Column : Type*) where
  records : List (Record Column)
  sequence : Int

namespace Table

variable {Column : Type*} (table : Table Column)

def rows : List (Row Column) := table.records.map (·.row)

def ofRows (rows : List (Row Column)) : Table Column where
  records := rows.zipIdx.map fun entry => ⟨entry.2 + 1, entry.1⟩
  sequence := rows.length

def update (selects : Row Column → Bool) (change : Row Column → Row Column) : Table Column :=
  { table with
    records := table.records.map fun record =>
      if selects record.row then { record with row := change record.row } else record }

def delete (selects : Row Column → Bool) : Table Column :=
  { table with records := table.records.filter fun record => !selects record.row }

/-- The rowid of an insert that names none: past every row, and past every rowid ever
handed out where the table is `AUTOINCREMENT`. -/
def nextRowid (autoincrement : Bool) : Int :=
  let largest := (table.records.map (·.rowid)).foldl max 0
  (if autoincrement then max table.sequence largest else largest) + 1

def append (rowid : Int) (row : Row Column) : Table Column where
  records := table.records ++ [⟨rowid, row⟩]
  sequence := max table.sequence rowid

def conflicts (keys : List (List Column)) (row : Row Column) : Bool :=
  table.rows.any fun stored => keys.any fun key => agree key stored row

/-- `INSERT OR IGNORE`: a row that would break a unique key is not inserted. -/
def insertOrIgnore (keys : List (List Column)) (rowid : Int) (row : Row Column) : Table Column :=
  if table.conflicts keys row then table else table.append rowid row

def mapRows (change : Row Column → Row Column) : Table Column :=
  { table with records := table.records.map fun record => ⟨record.rowid, change record.row⟩ }

@[simp] theorem map_rows_rows (change : Row Column → Row Column) :
    (table.mapRows change).rows = table.rows.map change := by
  simp only [rows, mapRows, List.map_map, Function.comp_def]

theorem map_rows_id : table.mapRows id = table := by
  simp [mapRows]

theorem map_rows_map_rows (first second : Row Column → Row Column) :
    (table.mapRows first).mapRows second = table.mapRows (second ∘ first) := by
  simp [mapRows, Function.comp_def]

theorem update_eq_map_rows (selects : Row Column → Bool) (change : Row Column → Row Column) :
    table.update selects change =
      table.mapRows fun row => if selects row then change row else row := by
  simp only [update, mapRows, Table.mk.injEq, and_true]
  apply List.map_congr_left
  intro record _
  split <;> rfl

@[simp] theorem update_rows (selects : Row Column → Bool)
    (change : Row Column → Row Column) :
    (table.update selects change).rows =
      table.rows.map fun row => if selects row then change row else row := by
  rw [update_eq_map_rows, map_rows_rows]

@[simp] theorem of_rows_rows (rows : List (Row Column)) : (ofRows rows).rows = rows := by
  simp [Table.rows, ofRows, Function.comp_def]

theorem of_rows_rowids (rows : List (Row Column)) :
    ((ofRows rows).records.map (·.rowid)).Nodup := by
  have rowids : (ofRows rows).records.map (·.rowid) =
      (rows.zipIdx.map Prod.snd).map fun position : Nat => (position : Int) + 1 := by
    simp only [ofRows, List.map_map, Function.comp_def]
  rw [rowids, List.zipIdx_map_snd]
  refine List.Nodup.map (fun left right same => ?_) List.nodup_range'
  have sum : (left : Int) + 1 = right + 1 := same
  omega

@[simp] theorem delete_rows (selects : Row Column → Bool) :
    (table.delete selects).rows = table.rows.filter fun row => !selects row := by
  simp only [rows, delete, List.filter_map]
  rfl

@[simp] theorem append_rows (rowid : Int) (row : Row Column) :
    (table.append rowid row).rows = table.rows ++ [row] := by
  simp [rows, append]

theorem conflicts_eq_false (keys : List (List Column)) (row : Row Column) :
    table.conflicts keys row = false ↔
      ∀ stored ∈ table.rows, ∀ key ∈ keys, agree key stored row = false := by
  simp [conflicts]

theorem insert_rows (keys : List (List Column)) (rowid : Int) (row : Row Column)
    (keyed : Keyed keys (table.rows ++ [row])) :
    (table.insertOrIgnore keys rowid row).rows = table.rows ++ [row] := by
  have free : table.conflicts keys row = false := by
    rw [conflicts_eq_false]
    intro stored member key keyMem
    exact (Keyed.append_iff.mp keyed).2.2 stored member row (by simp) key keyMem
  simp [insertOrIgnore, free]

end Table

end Tables

end Omnibus.Library.Sql
