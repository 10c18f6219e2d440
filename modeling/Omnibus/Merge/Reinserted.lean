import Mathlib.Algebra.Order.Ring.Int
import Omnibus.Merge.MovedBack

/-!
# Putting the deleted rows back

A recorded row goes back whole, because its keys are free again once the moved rows have
left the target. A ledger bucket that was folded into the target's comes off it first.
-/

namespace Omnibus.Merge

open Omnibus.Library.Sql

structure SoundRow (name : TableName) (parents : Parent → List Value) (row : DbRow) : Prop where
  listed : ∀ column ∉ name.columns, row column = .null
  referenced : ∀ key ∈ name.foreignKeys,
    row key.column = .null ∨ row key.column ∈ parents key.parent
  numbered : ∀ column ∈ [.id, .userId, .updatedAt], column ∈ name.columns →
    (row column).IsInteger
  counted : .percentGained ∈ name.columns → (row .percentGained).IsCount

theorem Stored.row {name : TableName} {parents : Parent → List Value} {table : DbTable}
    (stored : Stored name parents table) {row : DbRow} (member : row ∈ table.rows) :
    SoundRow name parents row where
  listed := stored.listed row member
  referenced := stored.referenced row member
  numbered := stored.numbered row member
  counted := stored.counted row member

theorem typed_columns_unreal (name : TableName) :
    (∀ key ∈ name.foreignKeys, key.column ∉ name.realColumns) ∧
      (∀ column ∈ [.id, .userId, .updatedAt, .percentGained, .bookUuid],
        column ∉ name.realColumns) ∧
      ∀ column ∈ name.realColumns, column ∈ name.columns := by
  cases name <;> decide

theorem SoundRow.reread {name : TableName} {parents : Parent → List Value} {row : DbRow}
    (sound : SoundRow name parents row) {json : Value → Value}
    (kept : ∀ column ∉ name.realColumns, json (row column) = row column) :
    SoundRow name parents (reread json row) where
  listed column unlisted :=
    (kept column fun real => unlisted ((typed_columns_unreal name).2.2 column real)).trans
      (sound.listed column unlisted)
  referenced key isKey := by
    simp only [Merge.reread, kept key.column ((typed_columns_unreal name).1 key isKey)]
    exact sound.referenced key isKey
  numbered column member listed := by
    have unreal : column ∉ name.realColumns := by
      apply (typed_columns_unreal name).2.1 column
      simp only [List.mem_cons, List.not_mem_nil, or_false] at member ⊢
      tauto
    simp only [Merge.reread, kept column unreal]
    exact sound.numbered column member listed
  counted listed := by
    have unreal := (typed_columns_unreal name).2.1 .percentGained (by simp)
    simp only [Merge.reread, kept .percentGained unreal]
    exact sound.counted listed

theorem foreign_key_columns (name : TableName) :
    ∀ key ∈ name.foreignKeys, key.column ∈ name.columns := by
  cases name <;> decide

theorem autoincrement_columns (name : TableName) (counted : name.autoincrement = true) :
    .id ∈ name.columns := by
  cases name <;> first | decide | cases counted

section Reinsert

variable {name : TableName} {parents : Parent → List Value}

theorem reinserted_value (row : DbRow) (sound : SoundRow name parents row) {column : ColumnName}
    (member : column ∈ name.columns) :
    reinsertedValue parents name (record id name.columns row) column = row column := by
  unfold reinsertedValue
  split
  · rename_i key found
    have isKey := List.mem_of_find?_eq_some found
    have named : key.column = column := by simpa using List.find?_some found
    rw [record_column _ _ member]
    have referenced := sound.referenced key isKey
    rw [named] at referenced
    split
    · rename_i gone
      simp only [Bool.and_eq_true, decide_eq_true_eq] at gone
      rcases referenced with absent | held
      · exact absent.symm
      · exact absurd held gone.2
    · rfl
  · exact record_column _ _ member

theorem references_hold (row : DbRow) (sound : SoundRow name parents row) :
    referencesHold parents name (record id name.columns row) = true := by
  simp only [referencesHold, List.all_eq_true, Bool.or_eq_true, decide_eq_true_eq]
  intro key isKey
  rw [record_column _ _ (foreign_key_columns name key isKey)]
  rcases sound.referenced key isKey with absent | held
  · exact .inl (.inr absent)
  · exact .inr held

theorem reinsert_rows (row : DbRow) (table : DbTable) (sound : SoundRow name parents row)
    (free : Keyed name.keys (table.rows ++ [row])) :
    (reinsert parents name (record id name.columns row) table).rows = table.rows ++ [row] := by
  have inserted : (fun column => if column ∈ name.columns then
      reinsertedValue parents name (record id name.columns row) column else .null) = row := by
    funext column
    split
    · rename_i member
      exact reinserted_value row sound member
    · rename_i unlisted
      exact (sound.listed column unlisted).symm
  unfold reinsert
  rw [if_pos (references_hold row sound)]
  simp only [inserted]
  by_cases counted : name.autoincrement = true
  · have idMem := autoincrement_columns name counted
    obtain ⟨id, isId⟩ := sound.numbered .id (by simp) idMem
    rw [if_pos counted, record_lookup, if_pos idMem, isId]
    exact Table.insert_rows _ _ _ _ free
  · rw [if_neg counted]
    exact Table.insert_rows _ _ _ _ free

/-- The step of `restoreDeleted` before the insert. -/
def unfolded (source target : Uuid) (name : TableName) (row : Object) (table : DbTable) :
    DbTable :=
  match ledgerCounterTables.find? (·.1 = name) with
  | some entry => unfoldLedgerRow source target entry.2 row table
  | none => table

/-- Every deleted row goes back, where `held rest` is what the rows of the table are while
`rest` is still to go back. -/
theorem restore_deleted_all (source target : Uuid) (deleted : List DbRow)
    (held : List DbRow → List DbRow) (sound : ∀ row ∈ deleted, SoundRow name parents row)
    (keyed : ∀ rest, Keyed name.keys (held rest ++ deleted))
    (step : ∀ row rest done table, row ∈ deleted → (∀ other ∈ rest, other ∈ deleted) →
      (∀ other ∈ done, other ∈ deleted) → table.rows.Perm (held (row :: rest) ++ done) →
      (unfolded source target name (record id name.columns row) table).rows.Perm
        (held rest ++ done)) :
    ∀ (rest done : List DbRow) (table : DbTable), deleted = done ++ rest →
      table.rows.Perm (held rest ++ done) →
      ((rest.map (whole name)).foldl (restoreDeleted source target parents name) table).rows.Perm
        (held [] ++ deleted) := by
  intro rest
  induction rest with
  | nil =>
      intro done table split rows
      simpa [split] using rows
  | cons row rest induction =>
      intro done table split rows
      have member : row ∈ deleted := by simp [split]
      have within : ∀ other ∈ rest, other ∈ deleted := fun other inside => by simp [split, inside]
      have before : ∀ other ∈ done, other ∈ deleted := fun other inside => by simp [split, inside]
      have loosened := step row rest done table member within before rows
      have reinserted := reinsert_rows row
        (unfolded source target name (record id name.columns row) table) (sound row member) (by
          refine Keyed.perm ?_ (loosened.append_right [row]).symm
          apply (keyed rest).sublist
          rw [split, List.append_assoc]
          refine List.Sublist.append_left ?_ _
          refine List.Sublist.append_left ?_ _
          simp)
      rw [List.map_cons, List.foldl_cons]
      apply induction (done ++ [row]) _ (by simp [split])
      change (reinsert parents name (record id name.columns row)
        (unfolded source target name (record id name.columns row) table)).rows.Perm _
      rw [reinserted, ← List.append_assoc]
      exact loosened.append_right [row]

end Reinsert

section Ledger

variable {source target : Uuid} {bucket : ColumnName}

/-- A target bucket with the amounts of these source buckets in it. -/
def withFolded (target : Uuid) (bucket : ColumnName) (sources : List DbRow) (row : DbRow) :
    DbRow :=
  if onBook target row then
    Function.update row .percentGained ((row .percentGained).plus
      (gainedInBucket [.userId, bucket, .format] sources row))
  else row

theorem fold_plus (values : List Value) (integers : ∀ value ∈ values, value.IsInteger)
    (start : Int) : values.foldl Value.plus (.integer start) =
      .integer (start + (values.map Column.integer).sum) := by
  induction values generalizing start with
  | nil => simp
  | cons value rest induction =>
      obtain ⟨number, rfl⟩ := integers value List.mem_cons_self
      rw [List.foldl_cons, Value.plus,
        induction (fun other member => integers other (List.mem_cons_of_mem _ member))]
      simp [Column.integer, Column.optionalInteger, Int.add_assoc]

def gain (row : DbRow) : Int := Column.integer (row .percentGained)

theorem gain_of_count {row : DbRow} (counted : (row .percentGained).IsCount) :
    row .percentGained = .integer (gain row) ∧ 0 ≤ gain row := by
  obtain ⟨count, isCount⟩ := counted
  simp [gain, isCount, Column.integer, Column.optionalInteger]

theorem gained_eq (columns : List ColumnName) (rows : List DbRow)
    (counted : ∀ row ∈ rows, (row .percentGained).IsCount) (row : DbRow) :
    gainedInBucket columns rows row =
      .integer ((rows.filter fun other => agree columns other row).map gain).sum := by
  rw [gainedInBucket, fold_plus, List.map_map, Int.zero_add]
  · rfl
  · intro value member
    obtain ⟨other, otherMem, rfl⟩ := List.mem_map.mp member
    exact ⟨_, (gain_of_count (counted other (List.mem_of_mem_filter otherMem))).1⟩

theorem gains_positive (rows : List DbRow)
    (counted : ∀ row ∈ rows, (row .percentGained).IsCount) : 0 ≤ (rows.map gain).sum := by
  induction rows with
  | nil => simp
  | cons first rest induction =>
      have positive := (gain_of_count (counted first List.mem_cons_self)).2
      have others := induction fun other member => counted other (List.mem_cons_of_mem _ member)
      simp only [List.map_cons, List.sum_cons]
      omega

theorem with_folded_of_ne (sources : List DbRow) (row : DbRow) (column : ColumnName)
    (other : column ≠ .percentGained) :
    withFolded target bucket sources row column = row column := by
  unfold withFolded
  split
  · exact Function.update_of_ne other _ _
  · rfl

theorem with_folded_nil (row : DbRow) (counted : (row .percentGained).IsCount) :
    withFolded target bucket [] row = row := by
  unfold withFolded
  split
  · have same : (row .percentGained).plus (gainedInBucket [.userId, bucket, .format] [] row) =
        row .percentGained := by
      rw [(gain_of_count counted).1]
      simp [gainedInBucket, Value.plus]
    rw [same, Function.update_eq_self]
  · rfl

theorem unfold_ledger_row (source target : Uuid) (name : TableName) (gainBucket : bucket ≠ .percentGained)
    (columns : ∀ column ∈ [.bookUuid, .userId, bucket, .format, .percentGained],
      column ∈ name.columns)
    (row : DbRow) (rest fixed others : List DbRow) (table : DbTable)
    (onSource : onBook source row = true)
    (counted : ∀ other ∈ row :: rest ++ others, (other .percentGained).IsCount)
    (offTarget : ∀ other ∈ fixed, onBook target other = false)
    (held : table.rows.Perm (fixed ++ others.map (withFolded target bucket (row :: rest)))) :
    (unfoldLedgerRow source target bucket (record id name.columns row) table).rows.Perm
      (fixed ++ others.map (withFolded target bucket rest)) := by
  have book : (record id name.columns row).lookup .bookUuid = some (.text source) := by
    rw [record_lookup, if_pos (columns .bookUuid (by simp)), (on_book_iff source row).mp onSource]
  rw [unfoldLedgerRow, if_pos book, Table.update_rows,
    record_column _ _ (columns .userId (by simp)), record_column _ _ (columns .format (by simp)),
    record_column _ _ (columns bucket (by simp)),
    record_column _ _ (columns .percentGained (by simp))]
  refine (held.map _).trans (List.Perm.of_eq ?_)
  rw [List.map_append]
  congr 1
  · conv_rhs => rw [← List.map_id fixed]
    apply List.map_congr_left
    intro other member
    simp [offTarget other member]
  · rw [List.map_map]
    apply List.map_congr_left
    intro other member
    simp only [Function.comp]
    have sameBook : onBook target (withFolded target bucket (row :: rest) other) =
        onBook target other := by
      simp only [onBook, with_folded_of_ne (row :: rest) other .bookUuid (by decide)]
    have selected : (onBook target (withFolded target bucket (row :: rest) other) &&
        (withFolded target bucket (row :: rest) other .userId).equals (row .userId) &&
        (withFolded target bucket (row :: rest) other .format).equals (row .format) &&
        (withFolded target bucket (row :: rest) other bucket).equals (row bucket)) =
        (onBook target other && agree [.userId, bucket, .format] row other) := by
      rw [sameBook, with_folded_of_ne _ _ .userId (by decide),
        with_folded_of_ne _ _ .format (by decide), with_folded_of_ne _ _ bucket gainBucket,
        agree_comm]
      simp only [agree, List.all_cons, List.all_nil, Bool.and_true]
      cases onBook target other <;> cases (other .userId).equals (row .userId) <;>
        cases (other .format).equals (row .format) <;> simp
    rw [selected]
    have otherCounted := counted other (by simp [member])
    have restCounted : ∀ other ∈ row :: rest, (other .percentGained).IsCount :=
      fun other inside => counted other (List.mem_append_left _ inside)
    by_cases onTarget : onBook target other = true
    · have total := gained_eq [.userId, bucket, .format] rest
        (fun other inside => restCounted other (List.mem_cons_of_mem _ inside)) other
      have totals := gained_eq [.userId, bucket, .format] (row :: rest) restCounted other
      have positive := gains_positive
        (rest.filter fun source => agree [.userId, bucket, .format] source other)
        (fun other inside => restCounted other
          (List.mem_cons_of_mem _ (List.mem_of_mem_filter inside)))
      have own := gain_of_count otherCounted
      have taken := gain_of_count (restCounted row List.mem_cons_self)
      simp only [withFolded, onTarget, if_true, Bool.true_and, total, totals]
      by_cases agreed : agree [.userId, bucket, .format] row other = true
      · have first : ((row :: rest).filter fun source =>
            agree [.userId, bucket, .format] source other) = row :: (rest.filter fun source =>
              agree [.userId, bucket, .format] source other) := List.filter_cons_of_pos agreed
        rw [if_pos agreed, Function.update_idem, first, own.1, taken.1]
        simp only [Function.update_self, Value.plus, Value.minusToZero, List.map_cons,
          List.sum_cons]
        have remaining (sum : Int) (positive : 0 ≤ sum) :
            max 0 (gain other + (gain row + sum) - gain row) = gain other + sum := by
          omega
        rw [remaining _ positive]
      · have first : ((row :: rest).filter fun source =>
            agree [.userId, bucket, .format] source other) = (rest.filter fun source =>
              agree [.userId, bucket, .format] source other) := List.filter_cons_of_neg agreed
        rw [if_neg agreed, first]
    · simp [withFolded, onTarget]

end Ledger

end Omnibus.Merge
