import Omnibus.Merge.Relocation

/-!
# What the record of a merge holds

The rowids a merge carries over tell the rows that moved from the rows that went, so the
record names every surviving source row and holds the whole of every deleted one.
-/

namespace Omnibus.Merge

open Omnibus.Library.Sql

/-- What reading a value back from its JSON text leaves as it was. A REAL is not among it:
`json_object` prints fifteen significant digits of one. -/
structure Rereads (json : Value → Value) : Prop where
  null : json .null = .null
  integer (number : Int) : json (.integer number) = .integer number
  text (content : String) : json (.text content) = .text content

/-- A row as its record gives it back. -/
def reread (json : Value → Value) (row : DbRow) : DbRow := fun column => json (row column)

/-- Of these rows every column but the REAL ones is given back as it was. -/
def KeptBut (json : Value → Value) (name : TableName) (rows : List DbRow) : Prop :=
  ∀ row ∈ rows, ∀ column ∉ name.realColumns, json (row column) = row column

theorem Rereads.kept_but {json : Value → Value} (rereads : Rereads json) {name : TableName}
    {rows : List DbRow} (typed : Typed name rows) : KeptBut json name rows := by
  intro row member column unreal
  cases value : row column with
  | null => exact rereads.null
  | integer number => exact rereads.integer number
  | real number => exact absurd ⟨number, value⟩ (typed row member column unreal)
  | text content => exact rereads.text content

theorem reread_unreal {json : Value → Value} {name : TableName} {rows : List DbRow}
    (kept : KeptBut json name rows) (unreal : name.realColumns = []) :
    rows.map (reread json) = rows := by
  conv_rhs => rw [← List.map_id rows]
  apply List.map_congr_left
  intro row member
  funext column
  exact kept row member column (by simp [unreal])

theorem key_unreal (name : TableName) : ∀ key ∈ name.keys, ∀ column ∈ key,
    column ∉ name.realColumns := by
  cases name <;> decide

theorem record_lookup (columns : List ColumnName) (row : DbRow) (column : ColumnName) :
    (record id columns row).lookup column =
      if column ∈ columns then some (row column) else none := by
  induction columns with
  | nil => rfl
  | cons first rest induction =>
      simp only [record, List.map_cons, List.lookup_cons] at induction ⊢
      by_cases same : column = first
      · subst same
        simp
      · have different : (column == first) = false := by simpa using same
        simp only [different, List.mem_cons, same, false_or]
        exact induction

theorem record_column (columns : List ColumnName) (row : DbRow) {column : ColumnName}
    (member : column ∈ columns) : (record id columns row).column column = row column := by
  simp [Object.column, record_lookup, member]

theorem id_match_record (columns : List ColumnName) (named row : DbRow) :
    idMatch (record id columns named) row = agree columns row named := by
  simp [idMatch, record, agree, Function.comp_def]

theorem identity_columns (name : TableName) : ∀ column ∈ identity name,
    column ∈ name.columns ∧ column ∈ name.primaryKey ∧ column ≠ .bookUuid := by
  cases name <;> decide

theorem identity_of_record (name : TableName) (row : DbRow) :
    identityOf name (record id name.columns row) = record id (identity name) row := by
  unfold identityOf record
  apply List.map_congr_left
  intro column member
  have lookup := record_lookup name.columns row column
  rw [record, if_pos (identity_columns name column member).1] at lookup
  rw [lookup]
  rfl

theorem identity_unreal (name : TableName) : ∀ column ∈ identity name,
    column ∉ name.realColumns := fun column member =>
  key_unreal name name.primaryKey List.mem_cons_self column
    (identity_columns name column member).2.1

def whole (name : TableName) (row : DbRow) : DeletedRow :=
  ⟨record id (identity name) row, record id name.columns row⟩

theorem records_deletions (name : TableName) : recordsDeletions name = (rule name).isSome := by
  cases name <;> decide

section Snapshot

variable (json : Value → Value) {source target : Uuid} (now : Int)

theorem whole_reread (name : TableName) (row : DbRow) :
    (⟨identityOf name (record json name.columns row), record json name.columns row⟩ : DeletedRow) =
      whole name (reread json row) :=
  congrArg (fun recorded => DeletedRow.mk recorded (record json name.columns row))
    (identity_of_record name (reread json row))

theorem record_kept (columns : List ColumnName) (row : DbRow)
    (kept : ∀ column ∈ columns, json (row column) = row column) :
    record json columns row = record id columns row := by
  apply List.map_congr_left
  intro column member
  simp only [kept column member, id]

theorem on_book_carry (name : TableName) (table : DbTable)
    (row : DbRow) : onBook target (carry source target now name table row) =
      (onBook source row || onBook target row) := by
  rw [Bool.eq_iff_iff, on_book_iff, carry_book, Bool.or_eq_true, on_book_iff target]
  by_cases onSource : onBook source row = true
  · simp [onSource]
  · simp [onSource]

/-- A stored row is found under its rowid on the target exactly when it survived there. -/
theorem rowid_on_target (different : source ≠ target) (name : TableName) (table : DbTable)
    (rowids : (table.records.map (·.rowid)).Nodup) {stored : Record ColumnName}
    (member : stored ∈ table.records) :
    stored.rowid ∈ rowidsOnTarget target (mergedTable source target now name table) ↔
      kept source target name table stored.row = true ∧
        (onBook source stored.row || onBook target stored.row) = true := by
  unfold rowidsOnTarget
  rw [merged_records source target now different, List.filter_map, List.filter_filter]
  simp only [List.map_map, List.mem_map, List.mem_filter, Function.comp, on_book_carry now,
    Bool.and_eq_true]
  constructor
  · intro ⟨other, ⟨otherMem, books, survived⟩, sameId⟩
    have same : other = stored := List.inj_on_of_nodup_map rowids otherMem member sameId
    subst same
    exact ⟨survived, books⟩
  · intro ⟨survived, books⟩
    exact ⟨stored, ⟨member, books, survived⟩, rfl⟩

theorem moved_rowid (different : source ≠ target) (name : TableName) (table : DbTable)
    (rowids : (table.records.map (·.rowid)).Nodup) {stored : Record ColumnName}
    (member : stored ∈ table.records) :
    stored.rowid ∈ movedRowids target (capturePre json source target name table)
        (mergedTable source target now name table) ↔
      kept source target name table stored.row = true ∧ onBook source stored.row = true := by
  simp only [movedRowids, capturePre, List.map_map, List.mem_filter, List.mem_map, Function.comp,
    decide_eq_true_eq, rowid_on_target now different name table rowids member]
  constructor
  · intro ⟨⟨other, ⟨otherMem, onSource⟩, sameId⟩, survived, _⟩
    have same : other = stored := List.inj_on_of_nodup_map rowids otherMem member sameId
    subst same
    exact ⟨survived, onSource⟩
  · intro ⟨survived, onSource⟩
    exact ⟨⟨stored, ⟨member, onSource⟩, rfl⟩, survived, by simp [onSource]⟩

def movedRows (source target : Uuid) (name : TableName) (table : DbTable) : List DbRow :=
  table.rows.filter fun row => onBook source row && kept source target name table row

def deletedRows (source target : Uuid) (name : TableName) (table : DbTable) : List DbRow :=
  table.rows.filter fun row => !kept source target name table row

theorem kept_of_other (name : TableName) (table : DbTable) {row : DbRow}
    (other : (onBook source row || onBook target row) = false) :
    kept source target name table row = true := by
  rw [Bool.or_eq_false_iff] at other
  unfold kept
  split
  · simp [survives, other.1, other.2]
  · rfl

/-- One table's stored rows, its pre-merge capture and the table the merge left. -/
structure Captured (json : Value → Value) (source target : Uuid) (now : Int) (name : TableName)
    (table : DbTable) (pre : TableName → PreTable) (db : Db) : Prop where
  different : source ≠ target
  rowids : (table.records.map (·.rowid)).Nodup
  kept : KeptBut json name table.rows
  before : pre name = capturePre json source target name table
  after : db.tables name = mergedTable source target now name table

variable {json} {now} {name : TableName} {table : DbTable} {pre : TableName → PreTable} {db : Db}

theorem captured_moved (captured : Captured json source target now name table pre db) :
    (capturePost target pre db).moved name =
      (movedRows source target name table).map (record id (identity name)) := by
  simp only [capturePost, captured.before, captured.after, movedRows, Table.rows]
  simp only [capturePre, List.filter_map, List.map_map, List.filter_filter, Function.comp_def]
  have same : ∀ stored ∈ table.records,
      (decide (stored.rowid ∈ movedRowids target (capturePre json source target name table)
        (mergedTable source target now name table)) && onBook source stored.row) =
      (onBook source stored.row && kept source target name table stored.row) := by
    intro stored member
    rw [Bool.eq_iff_iff, Bool.and_eq_true, Bool.and_eq_true, decide_eq_true_eq,
      moved_rowid json now captured.different name table captured.rowids member]
    exact ⟨fun found => ⟨found.2, found.1.1⟩, fun found => ⟨⟨found.2, found.1⟩, found.1⟩⟩
  have filters := List.filter_congr same
  simp only [capturePre] at filters
  rw [filters]
  apply List.map_congr_left
  intro stored member
  rw [List.mem_filter] at member
  exact record_kept json _ _ fun column named =>
    captured.kept stored.row (List.mem_map_of_mem member.1) column
      (identity_unreal name column named)

/-- The captured rows that pass a test of their rowids, as the stored rows that pass the
same test of themselves. -/
theorem captured_rows (captured : Captured json source target now name table pre db)
    (deletions : recordsDeletions name = true) (byRowid : Int → Bool) (byRow : DbRow → Bool)
    (same : ∀ stored ∈ table.records, byRowid stored.rowid = byRow stored.row) :
    ((pre name).rows.filter fun entry => byRowid entry.1).map (·.2) =
      ((table.rows.filter fun row => onBook source row || onBook target row).filter byRow).map
        (record json name.columns) := by
  simp only [captured.before, capturePre, deletions, if_true, Table.rows, List.filter_map,
    List.map_map, List.filter_filter, Function.comp_def]
  rw [List.filter_congr fun stored member => by rw [same stored member]]

theorem captured_deleted (captured : Captured json source target now name table pre db) :
    (capturePost target pre db).deleted name =
      ((deletedRows source target name table).map (reread json)).map (whole name) := by
  have split : (capturePost target pre db).deleted name =
      (((pre name).rows.filter fun entry =>
        entry.1 ∉ rowidsOnTarget target (db.tables name)).map (·.2)).map fun recorded =>
          ⟨identityOf name recorded, recorded⟩ := by
    simp only [capturePost, List.map_map, Function.comp_def]
  rw [split]
  by_cases deletions : recordsDeletions name = true
  · rw [captured_rows captured deletions
      (fun rowid => decide (rowid ∉ rowidsOnTarget target (db.tables name)))
      (fun row => !kept source target name table row || !(onBook source row || onBook target row))
      fun stored member => by
        rw [captured.after, Bool.eq_iff_iff, decide_eq_true_eq,
          rowid_on_target now captured.different name table captured.rowids member]
        simp only [Bool.or_eq_true, Bool.not_eq_true', ← Bool.not_eq_true]
        tauto]
    rw [List.map_map, deletedRows, List.filter_filter]
    have filters : ∀ row ∈ table.rows,
        ((!kept source target name table row || !(onBook source row || onBook target row)) &&
          (onBook source row || onBook target row)) = !kept source target name table row := by
      intro row _
      cases books : onBook source row || onBook target row
      · rw [kept_of_other name table books]
        rfl
      · simp
    rw [List.filter_congr filters, List.map_map]
    apply List.map_congr_left
    intro row _
    simp only [Function.comp, whole_reread]
  · rw [Bool.not_eq_true] at deletions
    have unruled : rule name = none := by
      rw [records_deletions, Option.isSome_eq_false_iff, Option.isNone_iff_eq_none] at deletions
      exact deletions
    simp [captured.before, capturePre, deletions, deletedRows, kept, unruled]

theorem captured_before (captured : Captured json source target now name table pre db) :
    (capturePost target pre db).movedBefore name =
      if name ∈ currentValueTables then
        ((movedRows source target name table).map (reread json)).map (whole name)
      else [] := by
  by_cases current : name ∈ currentValueTables
  · have deletions : recordsDeletions name = true := by
      revert current
      cases name <;> decide
    have split : (capturePost target pre db).movedBefore name =
        (((pre name).rows.filter fun entry =>
          entry.1 ∈ rowidsOnTarget target (db.tables name) &&
            entry.1 ∈ movedRowids target (pre name) (db.tables name)).map (·.2)).map
          fun recorded => ⟨identityOf name recorded, recorded⟩ := by
      simp only [capturePost, List.map_map, Function.comp_def, current, decide_true, Bool.and_true]
    rw [split, if_pos current, captured_rows captured deletions
      (fun rowid => decide (rowid ∈ rowidsOnTarget target (db.tables name)) &&
        decide (rowid ∈ movedRowids target (pre name) (db.tables name)))
      (fun row => onBook source row && kept source target name table row)
      fun stored member => by
        rw [captured.after, captured.before, Bool.eq_iff_iff, Bool.and_eq_true, decide_eq_true_eq,
          decide_eq_true_eq, Bool.and_eq_true,
          rowid_on_target now captured.different name table captured.rowids member,
          moved_rowid json now captured.different name table captured.rowids member]
        simp only [Bool.or_eq_true]
        tauto]
    rw [List.map_map, movedRows, List.filter_filter]
    have filters : ∀ row ∈ table.rows,
        ((onBook source row && kept source target name table row) &&
          (onBook source row || onBook target row)) =
        (onBook source row && kept source target name table row) := by
      intro row _
      cases onBook source row <;> simp
    rw [List.filter_congr filters, List.map_map]
    apply List.map_congr_left
    intro row _
    simp only [Function.comp, whole_reread]
  · simp [capturePost, current]

theorem captured_clocks
    (captured : Captured json source target now .readingProgressMarks table pre db) :
    (capturePost target pre db).clearedClocks =
      (table.rows.filter fun row => (onBook source row || onBook target row) &&
        kept source target .readingProgressMarks table row &&
        row .sittingObservedAt ≠ .null).map
        (record id TableName.readingProgressMarks.columns) := by
  have split : (capturePost target pre db).clearedClocks =
      (((pre .readingProgressMarks).rows.filter fun entry =>
        entry.1 ∈ rowidsOnTarget target (db.tables .readingProgressMarks)).map (·.2)).filter
        fun recorded => decide ((recorded.lookup .sittingObservedAt).getD .null ≠ .null) := by
    simp only [capturePost, List.filter_map, List.filter_filter, Function.comp_def]
    congr 1
    apply List.filter_congr
    intro entry _
    rw [Bool.and_comm]
  rw [split, captured_rows captured rfl
    (fun rowid => decide (rowid ∈ rowidsOnTarget target (db.tables .readingProgressMarks)))
    (fun row => kept source target .readingProgressMarks table row &&
      (onBook source row || onBook target row))
    fun stored member => by
      rw [captured.after, Bool.eq_iff_iff, decide_eq_true_eq,
        rowid_on_target now captured.different _ table captured.rowids member, Bool.and_eq_true]]
  have unchanged : ∀ row ∈ table.rows, record json TableName.readingProgressMarks.columns row =
      record id TableName.readingProgressMarks.columns row := fun row member =>
    record_kept json _ _ fun column _ => captured.kept row member column List.not_mem_nil
  rw [List.filter_filter, List.map_congr_left fun row member =>
    unchanged row (List.mem_of_mem_filter member), List.filter_map, List.filter_filter]
  congr 1
  apply List.filter_congr
  intro row _
  simp only [Function.comp, record_lookup]
  cases onBook source row || onBook target row <;>
    cases kept source target .readingProgressMarks table row <;> simp [TableName.columns]

end Snapshot

end Omnibus.Merge
