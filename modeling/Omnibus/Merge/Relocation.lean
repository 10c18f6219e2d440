import Omnibus.Merge.Merged

/-!
# Recording a merge and undoing it

`merge/relocation.rs`: what a merge records of every row it moves, deletes or rewrites, and
the replay of that record. A recorded value is what the JSON functions of SQLite and serde give
back for the stored one; `json` is that rendering, and `Rereads` is all that is assumed of it.
-/

namespace Omnibus.Merge

open Omnibus.Library.Sql

abbrev Object := List (ColumnName × Value)

inductive Conflict where
  | replaced (table : TableName)
  deriving DecidableEq, Repr

inductive MergeError where
  | sql (error : SqlError)
  | undoConflict (conflict : Conflict)
  deriving DecidableEq, Repr

/-- Tables relocation leaves to someone else. -/
def unrelocated : List TableName := [.bookReadStatus, .reviews, .bookContentChapters]

/-- Tables whose row is a reader's current value rather than an event. -/
def currentValueTables : List TableName :=
  [.readingProgress, .readingProgressMarks, .audiobookPlaybackPreferences]

/-- Columns the merge itself rewrites. -/
def mergeWritten : List ColumnName := [.bookUuid, .sittingObservedAt]

def relocatedTables : List TableName := retargetTables.filter fun name => name ∉ unrelocated

def recordsDeletions (name : TableName) : Bool :=
  collisionTables.any (·.table = name) || ledgerCounterTables.any (·.1 = name) ||
    name = .koboAnnotationsSync

/-- The columns that name a row across a merge: its `AUTOINCREMENT` id, or its primary key
without the book. -/
def identity (name : TableName) : List ColumnName :=
  if name.autoincrement then [.id] else name.primaryKey.filter (· ≠ .bookUuid)

structure DeletedRow where
  id : Object
  row : Object
  deriving DecidableEq, Repr

/-- One table as `capture_pre` saw it, each row under its rowid. -/
structure PreTable where
  source : List (Int × Object)
  rows : List (Int × Object)
  deriving DecidableEq, Repr

structure RelocationSnapshot where
  moved : TableName → List Object
  deleted : TableName → List DeletedRow
  /-- Pre-merge content of the moved rows of the current-value tables. -/
  movedBefore : TableName → List DeletedRow
  /-- Surviving marks whose sitting clock the merge may have cleared, as they stood. -/
  clearedClocks : List Object

section Capture

variable (json : Value → Value) (source target : Uuid)

/-- `json_object` over the columns. -/
def record (columns : List ColumnName) (row : DbRow) : Object :=
  columns.map fun column => (column, json (row column))

def identityOf (name : TableName) (recorded : Object) : Object :=
  (identity name).map fun column => (column, (recorded.lookup column).getD .null)

/-- `capture_pre` for one table. -/
def capturePre (name : TableName) (table : DbTable) : PreTable where
  source := (table.records.filter fun stored => onBook source stored.row).map fun stored =>
    (stored.rowid, record json (identity name) stored.row)
  rows :=
    if recordsDeletions name then
      (table.records.filter fun stored =>
        onBook source stored.row || onBook target stored.row).map fun stored =>
        (stored.rowid, record json name.columns stored.row)
    else []

def rowidsOnTarget (table : DbTable) : List Int :=
  (table.records.filter fun stored => onBook target stored.row).map (·.rowid)

def movedRowids (pre : PreTable) (table : DbTable) : List Int :=
  (pre.source.map (·.1)).filter fun rowid => rowid ∈ rowidsOnTarget target table

/-- `capture_post`: what survives on the target moved, what is gone was deleted. -/
def capturePost (pre : TableName → PreTable) (db : Db) : RelocationSnapshot where
  moved name := ((pre name).source.filter fun entry =>
    entry.1 ∈ movedRowids target (pre name) (db.tables name)).map (·.2)
  deleted name := ((pre name).rows.filter fun entry =>
    entry.1 ∉ rowidsOnTarget target (db.tables name)).map fun entry =>
    ⟨identityOf name entry.2, entry.2⟩
  movedBefore name := ((pre name).rows.filter fun entry =>
    entry.1 ∈ rowidsOnTarget target (db.tables name) &&
      entry.1 ∈ movedRowids target (pre name) (db.tables name) &&
      name ∈ currentValueTables).map fun entry => ⟨identityOf name entry.2, entry.2⟩
  clearedClocks := ((pre .readingProgressMarks).rows.filter fun entry =>
    entry.1 ∈ rowidsOnTarget target (db.tables .readingProgressMarks) &&
      (entry.2.lookup .sittingObservedAt).getD .null ≠ .null).map (·.2)

/-- The relocated tables' part of a merge: the moves and their record. -/
def mergeRows (now : Int) (db : Db) : Except MergeError (Db × RelocationSnapshot) :=
  match moveProgressAndHistory source target now db with
  | .error error => .error (.sql error)
  | .ok merged =>
      .ok (merged,
        capturePost target (fun name => capturePre json source target name (db.tables name)) merged)

def deletedIds (snapshot : RelocationSnapshot) : List (TableName × Object) :=
  relocatedTables.flatMap fun name => (snapshot.deleted name).map fun row => (name, row.id)

/-- `deleted_rows` of `load_later_merge_claims`, from the open merges after the one undone. -/
def laterDeletedRows (later : List RelocationSnapshot) : List (TableName × Object) :=
  later.flatMap deletedIds

end Capture

section Restore

variable (json : Value → Value) (source target : Uuid) (now : Int)

def idMatch (id : Object) (row : DbRow) : Bool := id.all fun entry => (row entry.1).equals entry.2

/-- `changed_since`: whether the moved row no longer says what it said before the merge. -/
def changedSince (name : TableName) (before : DeletedRow) (table : DbTable) : Bool :=
  match table.rows.find? fun row => onBook target row && idMatch before.id row with
  | none => false
  | some row =>
      (record json name.columns row).filter (fun entry => entry.1 ∉ mergeWritten) ≠
        before.row.filter fun entry => entry.1 ∉ mergeWritten

def moveBack (name : TableName) (id : Object) (table : DbTable) : Except MergeError DbTable :=
  let table := table.update (fun row => onBook target row && idMatch id row)
    (retargetSet name source now)
  if Keyed name.keys table.rows then .ok table else .error (.sql (.unique name))

def Object.column (row : Object) (column : ColumnName) : Value :=
  (row.lookup column).getD .null

/-- `unfold_ledger_row`: take a folded source bucket off the target's bucket. -/
def unfoldLedgerRow (bucket : ColumnName) (row : Object) (table : DbTable) : DbTable :=
  if row.lookup .bookUuid = some (.text source) then
    table.update
      (fun stored => onBook target stored && (stored .userId).equals (row.column .userId) &&
        (stored .format).equals (row.column .format) &&
        (stored bucket).equals (row.column bucket))
      fun stored => Function.update stored .percentGained
        ((stored .percentGained).minusToZero (row.column .percentGained))
  else table

/-- The value `reinsert` writes in a column: a reference that is gone is nulled where the
schema would have. -/
def reinsertedValue (parents : Parent → List Value) (name : TableName) (row : Object)
    (column : ColumnName) : Value :=
  match name.foreignKeys.find? (·.column = column) with
  | some key =>
      if key.onDelete = .setNull && row.column column ∉ parents key.parent then .null
      else row.column column
  | none => row.column column

def referencesHold (parents : Parent → List Value) (name : TableName) (row : Object) : Bool :=
  name.foreignKeys.all fun key => key.onDelete = .setNull || row.column key.column = .null ||
    row.column key.column ∈ parents key.parent

/-- `reinsert`, under the recorded id where the table has one and the record still holds it. -/
def reinsert (parents : Parent → List Value) (name : TableName) (row : Object)
    (table : DbTable) : DbTable :=
  if referencesHold parents name row then
    let fresh := table.nextRowid name.autoincrement
    let inserted : DbRow := fun column =>
      if column ∈ name.columns then reinsertedValue parents name row column else .null
    if name.autoincrement then
      match row.lookup .id with
      | some (.integer id) => table.insertOrIgnore name.keys id inserted
      | _ => table.insertOrIgnore name.keys fresh (Function.update inserted .id (.integer fresh))
    else table.insertOrIgnore name.keys fresh inserted
  else table

/-- `restore_clock`: unless a read since set a new one. -/
def restoreClock (table : DbTable) (row : Object) : DbTable :=
  table.update
    (fun stored => (stored .bookUuid).equals (row.column .bookUuid) &&
      (stored .userId).equals (row.column .userId) &&
      (stored .format).equals (row.column .format) && stored .sittingObservedAt = .null)
    fun stored => Function.update stored .sittingObservedAt (row.column .sittingObservedAt)

variable (parents : Parent → List Value)

/-- One moved row: the survivor keeps a value changed since, and the source gets its own. -/
def restoreMoved (name : TableName) (before : List DeletedRow) (table : DbTable) (id : Object) :
    Except MergeError DbTable :=
  match before.find? (·.id = id) with
  | some recorded =>
      if changedSince json target name recorded table then
        .ok (reinsert parents name (recorded.row.filter fun entry => entry.1 ≠ .id) table)
      else moveBack source target now name id table
  | none => moveBack source target now name id table

def restoreDeleted (name : TableName) (table : DbTable) (deleted : DeletedRow) : DbTable :=
  let unfolded :=
    match ledgerCounterTables.find? (·.1 = name) with
    | some entry => unfoldLedgerRow source target entry.2 deleted.row table
    | none => table
  reinsert parents name deleted.row unfolded

end Restore

def restoreRelocation (json : Value → Value) (source target : Uuid) (now : Int)
    (snapshot : RelocationSnapshot) (deletedByLaterMerges : List (TableName × Object)) (db : Db) :
    Except MergeError Db :=
  match relocatedTables.find? fun name =>
      (snapshot.moved name).any fun id => (name, id) ∈ deletedByLaterMerges with
  | some name => .error (.undoConflict (.replaced name))
  | none => do
      let moved ← relocatedTables.foldlM (fun db name => db.modifyM name
        ((snapshot.moved name).foldlM (restoreMoved json source target now db.parents name
          (snapshot.movedBefore name)))) db
      let restored := relocatedTables.foldl (fun db name => db.modify name
        ((snapshot.deleted name).foldl (restoreDeleted source target db.parents name))) moved
      return restored.modify .readingProgressMarks
        (snapshot.clearedClocks.foldl restoreClock)

end Omnibus.Merge
