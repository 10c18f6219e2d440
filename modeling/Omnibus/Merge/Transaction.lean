import Omnibus.Merge.Reviews

/-!
# Moving the reader's rows

`merge/transaction.rs`: the steps of `move_progress_and_history` over the retargeted
tables. Each step is what its statement does to the rows it selects; a retarget that would
break a unique key fails as the statement does.
-/

namespace Omnibus.Merge

open Omnibus.Library.Sql

inductive SqlError where
  | unique (table : TableName)
  deriving DecidableEq, Repr

open TableName in
def retargetTables : List TableName :=
  [readingProgress, readingProgressMarks, readingProgressDaily, readingProgressSlots,
    audiobookPlaybackPreferences, bookmarks, readingSessions, listeningSessions, annotations,
    annotationTombstones, koboAnnotationsSync, journalEntries, bookReadStatus, reviews,
    shelfBooks, physicalCopies, wishlistEntries, crossFormatLinks, bookContentChapters,
    bookExportDigests, bookRequests]

/-- `retarget_set`: a moved annotation is stamped with the clock. -/
def retargetSet (name : TableName) (book : Uuid) (now : Int) (row : DbRow) : DbRow :=
  match name with
  | .annotations =>
      Function.update (Function.update row .bookUuid (.text book)) .updatedAt (.integer now)
  | _ => Function.update row .bookUuid (.text book)

/-- Which of two colliding rows survives. -/
inductive Keep where
  | max (column : ColumnName)
  | min (column : ColumnName)
  | target
  deriving DecidableEq, Repr

/-- Ties go to the target. -/
def Keep.targetWins (keep : Keep) (target source : DbRow) : Bool :=
  match keep with
  | max column => (source column).atMost (target column)
  | min column => (target column).atMost (source column)
  | .target => true

structure Collision where
  table : TableName
  keys : List ColumnName
  keep : Keep
  deriving DecidableEq, Repr

open TableName in
def collisionTables : List Collision :=
  [⟨readingProgress, [.userId, .format], .max .updatedAt⟩,
    ⟨readingProgressMarks, [.userId, .format], .max .updatedAt⟩,
    ⟨audiobookPlaybackPreferences, [.userId], .max .updatedAt⟩,
    ⟨bookReadStatus, [.userId], .max .updatedAt⟩,
    ⟨reviews, [.userId], .target⟩,
    ⟨shelfBooks, [.shelfId], .min .position⟩,
    ⟨wishlistEntries, [.userId], .min .addedAt⟩,
    ⟨crossFormatLinks, [.userId], .target⟩,
    ⟨bookContentChapters, [.spineIndex], .target⟩,
    ⟨bookExportDigests, [.partialMd5], .target⟩]

open TableName in
/-- The forward-progress counters and the column each buckets on. -/
def ledgerCounterTables : List (TableName × ColumnName) :=
  [(readingProgressDaily, .day), (readingProgressSlots, .slot)]

section Statements

variable (source target : Uuid)

/-- Whether a row of `book` agrees with `row` on the columns. -/
def hasPartner (table : DbTable) (book : Uuid) (columns : List ColumnName) (row : DbRow) : Bool :=
  table.rows.any fun other => onBook book other && agree columns other row

/-- `clear_sitting_clock`, for the pairs with a mark on both books. -/
def clearSittingClock (table : DbTable) : DbTable :=
  table.update
    (fun row => (onBook source row || onBook target row) &&
      hasPartner table source [.userId, .format] row &&
      hasPartner table target [.userId, .format] row)
    fun row => Function.update row .sittingObservedAt .null

/-- `dedupe_collisions`: the beaten source rows, then the target rows a surviving source
row beat. -/
def dedupeCollisions (collision : Collision) (table : DbTable) : DbTable :=
  let settled := table.delete fun row => onBook source row &&
    table.rows.any fun other => onBook target other && agree collision.keys other row &&
      collision.keep.targetWins other row
  match collision.keep with
  | .target => settled
  | _ => settled.delete fun row => onBook target row &&
      hasPartner settled source collision.keys row

/-- `SUM(percent_gained)` of the source rows in the bucket of `row`. -/
def gainedInBucket (columns : List ColumnName) (rows : List DbRow) (row : DbRow) : Value :=
  ((rows.filter fun other => agree columns other row).map (· .percentGained)).foldl Value.plus
    (.integer 0)

/-- `fold_ledger_counters` for one table. -/
def foldLedgerCounters (bucket : ColumnName) (table : DbTable) : DbTable :=
  let columns := [.userId, bucket, .format]
  let summed := table.update
    (fun row => onBook target row && hasPartner table source columns row)
    fun row => Function.update row .percentGained
      ((row .percentGained).plus
        (gainedInBucket columns (table.rows.filter (onBook source)) row))
  summed.delete fun row => onBook source row && hasPartner summed target columns row

def dedupeDevices (table : DbTable) : DbTable :=
  table.delete fun row => onBook source row && hasPartner table target [.deviceId] row

/-- `UPDATE … SET … WHERE book_uuid = ?`. -/
def retarget (now : Int) (name : TableName) (table : DbTable) : Except SqlError DbTable :=
  let table := table.update (onBook source) (retargetSet name target now)
  if Keyed name.keys table.rows then .ok table else .error (.unique name)

/-- Everything before the retarget. -/
def settleCollisions (db : Db) : Db :=
  let db := db.modify .readingProgressMarks (clearSittingClock source target)
  let db := db.modify .reviews (settleReviews source target)
  let db := collisionTables.foldl (fun db collision =>
    db.modify collision.table (dedupeCollisions source target collision)) db
  let db := ledgerCounterTables.foldl (fun db entry =>
    db.modify entry.1 (foldLedgerCounters source target entry.2)) db
  db.modify .koboAnnotationsSync (dedupeDevices source target)

def moveProgressAndHistory (now : Int) (db : Db) : Except SqlError Db :=
  retargetTables.foldlM (fun db name => db.modifyM name (retarget source target now name))
    (settleCollisions source target db)

end Statements

end Omnibus.Merge
