import Omnibus.Merge.Transaction

/-!
# What a merge leaves of each table

Every table is settled by one rule: which rows of a colliding pair survive, and which
column of a surviving row the merge adjusts. The records of a merged table are the
survivors of the stored ones, adjusted and retargeted.
-/

namespace Omnibus.Merge

open Omnibus.Library.Sql

/-- The rule that settles two rows of one key: the dedupe's, the ledger fold's, or the
device dedupe's. -/
def rule (name : TableName) : Option Collision :=
  match collisionTables.find? (·.table = name) with
  | some collision => some collision
  | none =>
      match ledgerCounterTables.find? (·.1 = name) with
      | some entry => some ⟨name, [.userId, entry.2, .format], .target⟩
      | none =>
          if name = .koboAnnotationsSync then some ⟨name, [.deviceId], .target⟩ else none

def Keep.column : Keep → Option ColumnName
  | .max column => some column
  | .min column => some column
  | .target => none

def Collision.reads (collision : Collision) : List ColumnName :=
  .bookUuid :: collision.keys ++ collision.keep.column.toList

section Survivors

variable (source target : Uuid)

def beaten (collision : Collision) (rows : List DbRow) (row : DbRow) : Bool :=
  rows.any fun other => onBook target other && agree collision.keys other row &&
    collision.keep.targetWins other row

def survives (collision : Collision) (rows : List DbRow) (row : DbRow) : Bool :=
  if onBook source row then !beaten target collision rows row
  else if onBook target row then
    collision.keep = .target || !rows.any fun other => onBook source other &&
      !beaten target collision rows other && agree collision.keys other row
  else true

theorem on_book_exclusive {source target : Uuid} (different : source ≠ target) {row : DbRow}
    (onSource : onBook source row = true) : onBook target row = false := by
  rw [Bool.eq_false_iff]
  intro onTarget
  rw [on_book_iff] at onSource onTarget
  rw [onSource] at onTarget
  exact different (by injection onTarget)

theorem dedupe_records (different : source ≠ target) (collision : Collision) (table : DbTable) :
    (dedupeCollisions source target collision table).records =
      table.records.filter fun record =>
        survives source target collision table.rows record.row := by
  unfold dedupeCollisions
  cases keep : collision.keep with
  | target =>
      apply List.filter_congr
      intro record _
      change (!(onBook source record.row && table.rows.any _)) = _
      by_cases onSource : onBook source record.row = true
      · simp [survives, onSource, beaten, keep]
      · simp [survives, onSource, keep]
  | max column | min column =>
      simp only [Table.delete, List.filter_filter]
      apply List.filter_congr
      intro record _
      simp only [hasPartner, Table.rows, List.any_map, List.any_filter, Function.comp_def]
      by_cases onSource : onBook source record.row = true
      · simp [survives, onSource, on_book_exclusive different onSource, beaten, keep,
          Function.comp_def]
      · by_cases onTarget : onBook target record.row = true
        · simp only [survives, onSource, onTarget, keep, beaten, List.any_map,
            Function.comp_def, reduceCtorEq, decide_false, Bool.false_or, if_true,
            Bool.false_eq_true, if_false, Bool.true_and, Bool.false_and, Bool.not_false,
            Bool.and_true]
          congr 2
          funext other
          by_cases otherSource : onBook source other.row = true
          · simp [otherSource]
          · simp [otherSource]
        · simp [survives, onSource, onTarget]

theorem survives_map (collision : Collision) (rows : List DbRow) (change : DbRow → DbRow)
    (kept : ∀ row, ∀ column ∈ collision.reads, change row column = row column) (row : DbRow) :
    survives source target collision (rows.map change) (change row) =
      survives source target collision rows row := by
  have sameBook (book : Uuid) (row : DbRow) : onBook book (change row) = onBook book row := by
    simp only [onBook, kept row .bookUuid (by simp [Collision.reads])]
  have sameKeys (left right : DbRow) :
      agree collision.keys (change left) (change right) = agree collision.keys left right :=
    agree_congr (fun column member => kept left column (by simp [Collision.reads, member]))
      (fun column member => kept right column (by simp [Collision.reads, member]))
  have sameWins (left right : DbRow) :
      collision.keep.targetWins (change left) (change right) =
        collision.keep.targetWins left right := by
    cases keep : collision.keep with
    | target => rfl
    | max column | min column =>
        simp only [Keep.targetWins,
          kept _ column (by simp [Collision.reads, keep, Keep.column])]
  have sameBeaten (row : DbRow) :
      beaten target collision (rows.map change) (change row) =
        beaten target collision rows row := by
    simp only [beaten, List.any_map, Function.comp_def, sameBook, sameKeys, sameWins]
  simp only [survives, List.any_map, Function.comp_def, sameBook, sameKeys, sameBeaten]

/-- A bucket of the target with the source's amount in it. -/
def foldedRow (bucket : ColumnName) (table : DbTable) (row : DbRow) : DbRow :=
  if onBook target row && hasPartner table source [.userId, bucket, .format] row then
    Function.update row .percentGained ((row .percentGained).plus
      (gainedInBucket [.userId, bucket, .format] (table.rows.filter (onBook source)) row))
  else row

def clearedRow (table : DbTable) (row : DbRow) : DbRow :=
  if (onBook source row || onBook target row) &&
      hasPartner table source [.userId, .format] row &&
      hasPartner table target [.userId, .format] row then
    Function.update row .sittingObservedAt .null
  else row

def adjust (name : TableName) (table : DbTable) (row : DbRow) : DbRow :=
  match name with
  | .readingProgressMarks => clearedRow source target table row
  | .readingProgressDaily => foldedRow source target .day table row
  | .readingProgressSlots => foldedRow source target .slot table row
  | _ => row

theorem adjust_of_ne (name : TableName) (table : DbTable) (row : DbRow) (column : ColumnName)
    (clock : column ≠ .sittingObservedAt) (gain : column ≠ .percentGained) :
    adjust source target name table row column = row column := by
  unfold adjust clearedRow foldedRow
  split <;> first | rfl | (split <;> simp [clock, gain])

def adjusted (name : TableName) (table : DbTable) : DbTable :=
  table.mapRows (adjust source target name table)

def settledTable (name : TableName) (table : DbTable) : DbTable :=
  match rule name with
  | some collision =>
      dedupeCollisions source target collision (adjusted source target name table)
  | none => table

theorem fold_eq_dedupe (name : TableName) (bucket : ColumnName) (table : DbTable)
    (ledger : ∀ row, adjust source target name table row =
      foldedRow source target bucket table row) :
    foldLedgerCounters source target bucket table =
      dedupeCollisions source target ⟨name, [.userId, bucket, .format], .target⟩
        (adjusted source target name table) := by
  have summed : table.mapRows (foldedRow source target bucket table) =
      adjusted source target name table := by
    simp only [adjusted, funext ledger]
  have folded : foldLedgerCounters source target bucket table =
      (table.mapRows (foldedRow source target bucket table)).delete fun row =>
        onBook source row && hasPartner (table.mapRows (foldedRow source target bucket table))
          target [.userId, bucket, .format] row := by
    simp only [foldLedgerCounters, Table.update_eq_map_rows]
    rfl
  rw [folded, summed]
  simp only [dedupeCollisions, hasPartner, Keep.targetWins, Bool.and_true]

def reviewed (name : TableName) (table : DbTable) : DbTable :=
  match name with
  | .reviews => settleReviews source target table
  | _ => table

theorem settle_tables (db : Db) (name : TableName) :
    (settleCollisions source target db).tables name =
      settledTable source target name (reviewed source target name (db.tables name)) := by
  have plain (table : DbTable) (same : ∀ row, adjust source target name table row = row) :
      adjusted source target name table = table := by
    simp [adjusted, Table.mapRows, same]
  have cleared (table : DbTable) : clearSittingClock source target table =
      adjusted source target .readingProgressMarks table :=
    table.update_eq_map_rows _ _
  unfold settleCollisions
  simp only [collisionTables, ledgerCounterTables, List.foldl_cons, List.foldl_nil,
    Db.modify_tables]
  cases name
  all_goals simp only [reduceCtorEq, if_false, if_true]
  case readingProgressMarks => rw [cleared]; rfl
  case readingProgressDaily =>
    exact fold_eq_dedupe source target _ .day _ fun _ => rfl
  case readingProgressSlots =>
    exact fold_eq_dedupe source target _ .slot _ fun _ => rfl
  case koboAnnotationsSync =>
    simp only [settledTable]
    rw [plain _ fun _ => rfl]
    simp [rule, collisionTables, ledgerCounterTables, dedupeDevices, dedupeCollisions, hasPartner,
      Keep.targetWins, reviewed]
  all_goals
    first
      | rfl
      | (simp only [settledTable]
         rw [plain _ fun _ => rfl]
         rfl)

theorem settle_parents (db : Db) : (settleCollisions source target db).parents = db.parents := by
  simp only [settleCollisions, collisionTables, ledgerCounterTables, List.foldl_cons,
    List.foldl_nil, Db.modify_parents]

/-- Whether a row of the table is still there once the collisions are settled. -/
def kept (name : TableName) (table : DbTable) (row : DbRow) : Bool :=
  match rule name with
  | some collision => survives source target collision table.rows row
  | none => true

theorem rule_reads (name : TableName) (collision : Collision) (ruled : rule name = some collision) :
    ∀ column ∈ collision.reads, column ≠ .sittingObservedAt ∧ column ≠ .percentGained := by
  cases name
  all_goals
    simp only [rule, collisionTables, ledgerCounterTables] at ruled
    first | (cases ruled; decide) | cases ruled

theorem adjust_eq_self (name : TableName) (unruled : rule name = none) (table : DbTable)
    (row : DbRow) : adjust source target name table row = row := by
  cases name
  all_goals first | rfl | cases unruled

theorem settled_records (different : source ≠ target) (name : TableName) (table : DbTable) :
    (settledTable source target name table).records =
      (table.records.filter fun record => kept source target name table record.row).map
        fun record => ⟨record.rowid, adjust source target name table record.row⟩ := by
  unfold settledTable kept
  cases ruled : rule name with
  | none => simp [adjust_eq_self source target name ruled]
  | some collision =>
      rw [dedupe_records source target different, adjusted, Table.map_rows_rows]
      simp only [Table.mapRows, List.filter_map, Function.comp_def]
      congr 1
      apply List.filter_congr
      intro record _
      refine survives_map source target collision table.rows _ (fun row column member => ?_) _
      have other := rule_reads name collision ruled column member
      exact adjust_of_ne source target name table row column other.1 other.2

end Survivors

end Omnibus.Merge
