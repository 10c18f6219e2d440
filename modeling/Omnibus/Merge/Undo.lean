import Omnibus.Library.Rounding
import Omnibus.Merge.UndoneTable

/-!
# Merge then undo

Undoing a merge at once leaves every relocated table with the rows it had, but for the
stamp a moved annotation gets on each way and for the REAL values of the deleted rows, which
come back as their record gives them.
-/

namespace Omnibus.Merge

open Omnibus.Library.Sql

/-- A row up to the stamp a merge and its undo put on a moved annotation. -/
def upToStamp (name : TableName) (row : DbRow) : DbRow :=
  match name with
  | .annotations => Function.update row .updatedAt .null
  | _ => row

/-- The tables hold the same rows in some order, up to the stamp. -/
def SameRows (name : TableName) (left right : DbTable) : Prop :=
  (left.rows.map (upToStamp name)).Perm (right.rows.map (upToStamp name))

theorem up_to_stamp_elsewhere (name : TableName) (row : DbRow) {column : ColumnName}
    (elsewhere : ¬(name = .annotations ∧ column = .updatedAt)) :
    upToStamp name row column = row column := by
  unfold upToStamp
  split
  · exact Function.update_of_ne (fun stamp => elsewhere ⟨rfl, stamp⟩) _ _
  · rfl

theorem up_to_stamp_of_ne (name : TableName) (row : DbRow) {column : ColumnName}
    (unstamped : column ≠ .updatedAt) : upToStamp name row column = row column :=
  up_to_stamp_elsewhere name row fun stamp => unstamped stamp.2

section Rows

variable {source target : Uuid} {name : TableName} {table : DbTable}

theorem adjust_source_eq (different : source ≠ target) (unmarked : name ≠ .readingProgressMarks)
    {row : DbRow} (onSource : onBook source row = true) :
    adjust source target name table row = row := by
  have offTarget := on_book_exclusive different onSource
  unfold adjust foldedRow
  split
  · exact absurd rfl unmarked
  · simp [offTarget]
  · simp [offTarget]
  · rfl

theorem sent_back_plain (different : source ≠ target) (mergedAt undoneAt : Int)
    (unmarked : name ≠ .readingProgressMarks) {row : DbRow}
    (member : row ∈ movedRows source target name table) :
    upToStamp name (sentBack source target mergedAt undoneAt name table row) =
      upToStamp name row := by
  simp only [movedRows, List.mem_filter, Bool.and_eq_true] at member
  have book := (on_book_iff source row).mp member.2.1
  have back : Function.update row .bookUuid (.text source) = row := by
    rw [← book, Function.update_eq_self]
  rw [sentBack, carry, if_pos member.2.1, adjust_source_eq different unmarked member.2.1]
  by_cases stamped : name = .annotations
  · subst stamped
    funext column
    simp only [upToStamp, retargetSet]
    by_cases stamp : column = .updatedAt
    · simp [stamp]
    · by_cases isBook : column = .bookUuid
      · simp [isBook, book]
      · simp [stamp, isBook]
  · have unstamped (row : DbRow) : upToStamp name row = row := by
      unfold upToStamp
      split
      · exact absurd rfl stamped
      · rfl
    have moved (book : Uuid) (now : Int) (row : DbRow) :
        retargetSet name book now row = Function.update row .bookUuid (.text book) := by
      unfold retargetSet
      split
      · exact absurd rfl stamped
      · rfl
    rw [unstamped, unstamped, moved, moved, Function.update_idem, back]

theorem while_deleted_end {parents : Parent → List Value} (stored : Stored name parents table)
    (unmarked : name ≠ .readingProgressMarks) {row : DbRow} (member : row ∈ table.rows) :
    whileDeleted target name (adjust source target name table) [] row = row := by
  cases isLedger : ledgerCounterTables.find? (·.1 = name) with
  | some entry =>
      obtain ⟨_, _, _, columns, _⟩ := ledger_tables source target isLedger
      rw [while_deleted_ledger isLedger]
      exact with_folded_nil row (stored.counted row member (columns .percentGained (by simp)))
  | none =>
      rw [while_deleted_plain isLedger]
      cases name <;> first | rfl | exact absurd rfl unmarked | cases isLedger

/-- Outside the marks, the kept rows are what they were and the deleted ones are as they were
read back. -/
theorem plain_rows_undone (different : source ≠ target) (mergedAt undoneAt : Int)
    {json : Value → Value} {parents : Parent → List Value} (stored : Stored name parents table)
    (unmarked : name ≠ .readingProgressMarks) (undone : DbTable)
    (rows : undone.rows.Perm
      ((movedRows source target name table).map
          (sentBack source target mergedAt undoneAt name table) ++
        (remainingRows source target name table).map
          (whileDeleted target name (adjust source target name table) []) ++
        (deletedRows source target name table).map (reread json))) :
    (undone.rows.map (upToStamp name)).Perm
      ((table.rows.filter (kept source target name table)).map (upToStamp name) ++
        ((deletedRows source target name table).map (reread json)).map (upToStamp name)) := by
  apply (rows.map _).trans
  rw [List.map_append]
  apply List.Perm.append_right
  refine List.Perm.trans (List.Perm.of_eq ?_)
    ((kept_rows_split source target name table).map (upToStamp name)).symm
  simp only [List.map_append, List.map_map]
  congr 1
  · exact List.map_congr_left fun row member =>
      sent_back_plain different mergedAt undoneAt unmarked member
  · apply List.map_congr_left
    intro row member
    exact congrArg _ (while_deleted_end stored unmarked (List.mem_of_mem_filter member))

/-- Every REAL of a row the merge deletes is read back as it was. -/
def RealsReread (json : Value → Value) (source target : Uuid) (name : TableName)
    (table : DbTable) : Prop :=
  ∀ row ∈ deletedRows source target name table, ∀ column number,
    row column = .real number → json (.real number) = .real number

theorem reals_reread_iff {json : Value → Value} (rereads : Rereads json) :
    RealsReread json source target name table ↔
      ∀ row ∈ deletedRows source target name table, reread json row = row := by
  constructor
  · intro reals row member
    funext column
    cases value : row column with
    | null => simpa [reread, value] using rereads.null
    | integer number => simpa [reread, value] using rereads.integer number
    | real number => simpa [reread, value] using reals row member column number value
    | text content => simpa [reread, value] using rereads.text content
  · intro same row member column number value
    rw [← value]
    exact congrFun (same row member) column

theorem reread_injective {json : Value → Value} {parents : Parent → List Value}
    (stored : Stored name parents table) (unrealed : KeptBut json name table.rows)
    {row other : DbRow} (member : row ∈ table.rows) (otherMem : other ∈ table.rows)
    (same : upToStamp name (reread json row) = upToStamp name other) : row = other := by
  apply stored.keyed.eq_of_agree member otherMem name.primaryKey List.mem_cons_self
  rw [agree_iff]
  intro column inKey
  refine ⟨stored.present row member column (List.mem_cons_of_mem _ inKey), ?_⟩
  have unstamped := (key_columns name name.primaryKey List.mem_cons_self column inKey).2.2
  have unreal := key_unreal name name.primaryKey List.mem_cons_self column inKey
  have value := congrFun same column
  rw [up_to_stamp_of_ne name _ unstamped, up_to_stamp_of_ne name _ unstamped] at value
  rwa [reread, unrealed row member column unreal] at value

/-- The table has its rows again exactly when nothing of a deleted row was lost on the way. -/
theorem undone_rows_iff {json : Value → Value} (rereads : Rereads json)
    {parents : Parent → List Value} (stored : Stored name parents table)
    (unrealed : KeptBut json name table.rows) (undone : DbTable)
    (rows : (undone.rows.map (upToStamp name)).Perm
      ((table.rows.filter (kept source target name table)).map (upToStamp name) ++
        ((deletedRows source target name table).map (reread json)).map (upToStamp name))) :
    SameRows name undone table ↔ RealsReread json source target name table := by
  have split : (table.rows.map (upToStamp name)).Perm
      ((table.rows.filter (kept source target name table)).map (upToStamp name) ++
        (deletedRows source target name table).map (upToStamp name)) := by
    rw [← List.map_append]
    exact (List.filter_append_perm (kept source target name table) table.rows).symm.map _
  rw [SameRows, reals_reread_iff rereads]
  constructor
  · intro same row member
    have deleted := (List.perm_append_left_iff _).mp ((rows.symm.trans same).trans split)
    have found : upToStamp name (reread json row) ∈
        (deletedRows source target name table).map (upToStamp name) :=
      deleted.subset (List.mem_map_of_mem (List.mem_map_of_mem member))
    obtain ⟨other, otherMem, equal⟩ := List.mem_map.mp found
    have isStored : row ∈ table.rows := List.mem_of_mem_filter member
    have one := reread_injective stored unrealed isStored (List.mem_of_mem_filter otherMem)
      equal.symm
    subst one
    funext column
    by_cases stamp : name = .annotations ∧ column = .updatedAt
    · exact unrealed row isStored column (by rw [stamp.1, stamp.2]; decide)
    · have value := congrFun equal.symm column
      rwa [up_to_stamp_elsewhere name _ stamp, up_to_stamp_elsewhere name _ stamp] at value
  · intro whole
    refine (rows.trans (List.Perm.of_eq ?_)).trans split.symm
    rw [List.map_congr_left (g := id) whole, List.map_id]

end Rows

section Marks

variable {source target : Uuid} {table : DbTable}

theorem sent_back_mark (mergedAt undoneAt : Int) {row : DbRow}
    (member : row ∈ movedRows source target .readingProgressMarks table) :
    sentBack source target mergedAt undoneAt .readingProgressMarks table row =
      clearedRow source target table row := by
  simp only [movedRows, List.mem_filter, Bool.and_eq_true] at member
  have book : clearedRow source target table row .bookUuid = .text source := by
    rw [clears_of_ne (cleared_row_clears source target table) row (by decide)]
    exact (on_book_iff source row).mp member.2.1
  simp only [sentBack, carry, member.2.1, if_true, retargetSet, adjust, Function.update_idem]
  rw [← book, Function.update_eq_self]

theorem marks_undone (mergedAt undoneAt : Int) {parents : Parent → List Value}
    (stored : Stored .readingProgressMarks parents table) (restored : DbTable)
    (rows : restored.rows.Perm
      ((movedRows source target .readingProgressMarks table).map
          (sentBack source target mergedAt undoneAt .readingProgressMarks table) ++
        (remainingRows source target .readingProgressMarks table).map
          (whileDeleted target .readingProgressMarks
            (adjust source target .readingProgressMarks table) []) ++
        deletedRows source target .readingProgressMarks table)) :
    (((table.rows.filter fun row => (onBook source row || onBook target row) &&
        kept source target .readingProgressMarks table row &&
        row .sittingObservedAt ≠ .null).map
        (record id TableName.readingProgressMarks.columns)).foldl restoreClock restored).rows.Perm
      table.rows := by
  set clear := clearedRow source target table with isClear
  set survivors := table.rows.filter (kept source target .readingProgressMarks table)
    with isSurvivors
  set clocked : DbRow → Bool := fun row =>
    (onBook source row || onBook target row) && row .sittingObservedAt ≠ .null with isClocked
  set deleted := deletedRows source target .readingProgressMarks table with isDeleted
  have recorded : (table.rows.filter fun row => (onBook source row || onBook target row) &&
      kept source target .readingProgressMarks table row && row .sittingObservedAt ≠ .null) =
      survivors.filter clocked := by
    rw [isSurvivors, List.filter_filter]
    apply List.filter_congr
    intro row _
    simp only [isClocked]
    cases onBook source row || onBook target row <;>
      cases kept source target .readingProgressMarks table row <;> simp
  have cleared : restored.rows.Perm (survivors.map clear ++ deleted) := by
    refine rows.trans (List.Perm.append_right _ ?_)
    refine List.Perm.trans (List.Perm.of_eq ?_)
      ((kept_rows_split source target .readingProgressMarks table).map clear).symm
    rw [List.map_append]
    congr 1
    exact List.map_congr_left fun row member => sent_back_mark mergedAt undoneAt member
  have unclocked : ∀ row ∈ survivors.filter (fun row => !clocked row), clear row = row := by
    intro row member
    have absent := (List.mem_filter.mp member).2
    simp only [isClocked, Bool.not_eq_true', Bool.and_eq_false_iff, decide_eq_false_iff_not,
      ne_eq, not_not] at absent
    rw [isClear]
    rcases absent with offBooks | noClock
    · simp [clearedRow, offBooks]
    · rcases cleared_row_clears source target table row with same | isCleared
      · exact same
      · rw [isCleared, ← noClock, Function.update_eq_self]
  have split := List.filter_append_perm clocked survivors
  have held : restored.rows.Perm ([] ++ ((survivors.filter clocked).map clear ++
      (survivors.filter (fun row => !clocked row) ++ deleted))) := by
    apply cleared.trans
    rw [List.nil_append, ← List.append_assoc]
    refine List.Perm.append_right _ ((split.map clear).symm.trans (List.Perm.of_eq ?_))
    rw [List.map_append]
    congr 1
    conv_rhs => rw [← List.map_id (survivors.filter fun row => !clocked row)]
    exact List.map_congr_left unclocked
  have whole : ([] ++ (survivors.filter clocked ++
      (survivors.filter (fun row => !clocked row) ++ deleted))).Perm table.rows := by
    rw [List.nil_append, ← List.append_assoc]
    exact (split.append_right _).trans
      (List.filter_append_perm (kept source target .readingProgressMarks table) table.rows)
  rw [recorded]
  refine (restore_clocks_all (cleared_row_clears source target table) _ _ [] restored
    (stored.keyed.perm whole.symm) (fun row member column inKey => ?_) held).trans whole
  have isStored : row ∈ table.rows := List.mem_of_mem_filter (List.mem_of_mem_filter member)
  exact stored.present row isStored column (List.mem_cons_of_mem _ inKey)

end Marks

section Whole

variable {source target : Uuid} {db : Db} {json : Value → Value} (mergedAt undoneAt : Int)

def recordedMerge (json : Value → Value) (source target : Uuid) (mergedAt : Int) (db : Db) :
    RelocationSnapshot :=
  capturePost target (fun name => capturePre json source target name (db.tables name))
    (mergedDb source target mergedAt db)

theorem reviewed_relocated {name : TableName} (relocated : name ∈ relocatedTables)
    (table : DbTable) : reviewed source target name table = table := by
  have unreviewed : name ≠ .reviews := by
    intro equal
    subst equal
    exact absurd relocated (by decide)
  unfold reviewed
  split
  · exact absurd rfl unreviewed
  · rfl

theorem captured_relocated (different : source ≠ target) (valid : db.Valid)
    (unrealed : ∀ name, KeptBut json name (db.tables name).rows)
    {name : TableName} (relocated : name ∈ relocatedTables) :
    Captured json source target mergedAt name (db.tables name)
      (fun name => capturePre json source target name (db.tables name))
      (mergedDb source target mergedAt db) where
  different := different
  rowids := (valid name).rowids
  kept := unrealed name
  before := rfl
  after := by simp only [mergedDb, reviewed_relocated relocated]

/-- An undo that no later merge stands in the way of, whatever order the merged rows are stored
in: a relocated table has its rows again exactly when the REALs of its deleted rows are read back
as they were. -/
theorem restore_relocation_of_merged (different : source ≠ target) (valid : db.Valid)
    (typed : db.Typed) (rereads : Rereads json) (later : List (TableName × Object))
    (unclaimed : ∀ name ∈ relocatedTables,
      ∀ id ∈ (recordedMerge json source target mergedAt db).moved name, (name, id) ∉ later)
    (current : Db) (parents : current.parents = db.parents)
    (rows : ∀ name ∈ relocatedTables, (current.tables name).rows.Perm
      (mergedTable source target mergedAt name (db.tables name)).rows) :
    ∃ restored, restoreRelocation json source target undoneAt
        (recordedMerge json source target mergedAt db) later current = .ok restored ∧
      ∀ name ∈ relocatedTables, (SameRows name (restored.tables name) (db.tables name) ↔
        RealsReread json source target name (db.tables name)) := by
  have unrealed (name : TableName) : KeptBut json name (db.tables name).rows :=
    rereads.kept_but (typed name)
  have captured {name : TableName} (relocated : name ∈ relocatedTables) :=
    captured_relocated mergedAt different valid unrealed relocated
  have free : (relocatedTables.find? fun name =>
      ((recordedMerge json source target mergedAt db).moved name).any
        fun id => decide ((name, id) ∈ later)) = none := by
    rw [List.find?_eq_none]
    intro name relocated
    simp only [List.any_eq_true, decide_eq_true_eq, not_exists, not_and]
    exact unclaimed name relocated
  have phases (name : TableName) : ∃ after, name ∈ relocatedTables →
      ((recordedMerge json source target mergedAt db).moved name).foldlM
        (restoreMoved json source target undoneAt current.parents name
          ((recordedMerge json source target mergedAt db).movedBefore name))
        (current.tables name) = .ok after ∧
      (((recordedMerge json source target mergedAt db).deleted name).foldl
        (restoreDeleted source target current.parents name) after).rows.Perm
        ((movedRows source target name (db.tables name)).map
            (sentBack source target mergedAt undoneAt name (db.tables name)) ++
          (remainingRows source target name (db.tables name)).map
            (whileDeleted target name (adjust source target name (db.tables name)) []) ++
          (deletedRows source target name (db.tables name)).map (reread json)) := by
    by_cases relocated : name ∈ relocatedTables
    · obtain ⟨after, run, moved⟩ := moved_rows_return json mergedAt undoneAt different
        (valid name) (unrealed name) (current.tables name) (rows name relocated)
      refine ⟨after, fun _ => ⟨?_, ?_⟩⟩
      · rw [recordedMerge, captured_moved (captured relocated),
          captured_before (captured relocated), parents]
        exact run
      · rw [recordedMerge, captured_deleted (captured relocated), parents]
        exact deleted_rows_return json mergedAt undoneAt different (valid name) (unrealed name)
          after moved
    · exact ⟨current.tables name, fun relocated' => absurd relocated' relocated⟩
  choose after phase using phases
  have moves := Db.modify_all relocatedTables (by decide) current
    (fun parents name => ((recordedMerge json source target mergedAt db).moved name).foldlM
      (restoreMoved json source target undoneAt parents name
        ((recordedMerge json source target mergedAt db).movedBefore name)))
    after fun name relocated => (phase name relocated).1
  unfold restoreRelocation
  rw [free]
  simp only [moves, bind, Except.bind, pure, Except.pure]
  refine ⟨_, rfl, fun name relocated => ?_⟩
  rw [Db.modify_each relocatedTables (by decide) _ fun parents name =>
    ((recordedMerge json source target mergedAt db).deleted name).foldl
      (restoreDeleted source target parents name)]
  simp only [Db.modify_tables, relocated, if_true]
  by_cases marks : name = .readingProgressMarks
  · subst marks
    have returned := (phase _ relocated).2
    have deleted : (deletedRows source target .readingProgressMarks
        (db.tables .readingProgressMarks)).map (reread json) =
        deletedRows source target .readingProgressMarks (db.tables .readingProgressMarks) :=
      reread_unreal (fun row member => unrealed _ row (List.mem_of_mem_filter member)) rfl
    rw [deleted] at returned
    rw [if_pos rfl, recordedMerge, captured_clocks (captured relocated)]
    refine undone_rows_iff rereads (valid _) (unrealed _) _ ?_
    rw [deleted, ← List.map_append]
    refine List.Perm.map _ ((marks_undone mergedAt undoneAt (valid _) _ returned).trans ?_)
    exact (List.filter_append_perm (kept source target _ _) _).symm
  · rw [if_neg marks]
    exact undone_rows_iff rereads (valid name) (unrealed name) _
      (plain_rows_undone different mergedAt undoneAt (valid name) marks _
        (phase name relocated).2)

theorem merged_then_restored (different : source ≠ target) (valid : db.Valid) (typed : db.Typed)
    (rereads : Rereads json) :
    ∃ snapshot restored,
      mergeRows json source target mergedAt db =
        .ok (mergedDb source target mergedAt db, snapshot) ∧
      restoreRelocation json source target undoneAt snapshot (laterDeletedRows [])
        (mergedDb source target mergedAt db) = .ok restored ∧
      ∀ name ∈ relocatedTables, (SameRows name (restored.tables name) (db.tables name) ↔
        RealsReread json source target name (db.tables name)) := by
  obtain ⟨restored, undone, same⟩ := restore_relocation_of_merged mergedAt undoneAt different valid
    typed rereads (laterDeletedRows []) (fun _ _ _ _ => List.not_mem_nil)
    (mergedDb source target mergedAt db) rfl
    fun name relocated => by simp only [mergedDb, reviewed_relocated relocated]; rfl
  refine ⟨_, restored, ?_, undone, same⟩
  simp only [mergeRows, move_progress_and_history source target mergedAt different db valid,
    recordedMerge]

/-- Merge then undo is the identity on every relocated table exactly when the REALs of the rows
the merge deletes survive their record. -/
theorem merge_then_undo_iff (json : Value → Value) (source target : Uuid) (mergedAt undoneAt : Int)
    (db : Db) (different : source ≠ target) (valid : db.Valid) (typed : db.Typed)
    (rereads : Rereads json) :
    ∃ merged snapshot restored,
      mergeRows json source target mergedAt db = .ok (merged, snapshot) ∧
      restoreRelocation json source target undoneAt snapshot (laterDeletedRows []) merged =
        .ok restored ∧
      ((∀ name ∈ relocatedTables, SameRows name (restored.tables name) (db.tables name)) ↔
        ∀ name ∈ relocatedTables, RealsReread json source target name (db.tables name)) := by
  obtain ⟨snapshot, restored, merged, undone, same⟩ :=
    merged_then_restored mergedAt undoneAt different valid typed rereads
  exact ⟨mergedDb source target mergedAt db, snapshot, restored, merged, undone,
    forall₂_congr same⟩

end Whole

section Example

/-- The f64 nearest to the fifteen significant digits a REAL is printed with. -/
def fifteenDigits (number : ℚ) : ℚ :=
  let digit : ℚ := 10 ^ (Int.log 10 |number| - 14)
  let printed := Library.Rounding.roundTo 53 (⌊|number| / digit + 1 / 2⌋ * digit)
  if number < 0 then -printed else printed

/-- A value through `json_object` and `json_extract`. -/
def throughJson : Value → Value
  | .real number => .real (fifteenDigits number)
  | value => value

theorem through_json_rereads : Rereads throughJson := ⟨rfl, fun _ => rfl, fun _ => rfl⟩

def placeEntry (id : Int) (book : Uuid) (seconds : ℚ) (seen : Int) : List (ColumnName × Value) :=
  [(.id, .integer id), (.userId, .integer 1), (.bookUuid, .text book), (.format, .text "audio"),
    (.audioPositionSeconds, .real seconds), (.updatedAt, .integer seen)]

/-- One reader with a place in both books, the source's at half a second and a bit more. -/
def collidingPlaces : List (List (ColumnName × Value)) :=
  [placeEntry 1 "a" (1 / 2) 10, placeEntry 2 "b" (9 / 4) 20]

theorem merge_then_undo_colliding_places :
    ∃ merged snapshot restored,
      mergeRows throughJson "a" "b" 100
        (onlyTable .readingProgress (collidingPlaces.map Row.of) oneReader) =
          .ok (merged, snapshot) ∧
      restoreRelocation throughJson "a" "b" 200 snapshot (laterDeletedRows []) merged =
        .ok restored ∧
      ((∀ name ∈ relocatedTables, SameRows name (restored.tables name)
        ((onlyTable .readingProgress (collidingPlaces.map Row.of) oneReader).tables name)) ↔
        ∀ name ∈ relocatedTables, RealsReread throughJson "a" "b" name
          ((onlyTable .readingProgress (collidingPlaces.map Row.of) oneReader).tables name)) :=
  merge_then_undo_iff throughJson "a" "b" 100 200 _ (by decide)
    (only_table_valid .readingProgress oneReader collidingPlaces (by decide) (by decide))
    (only_table_typed .readingProgress oneReader collidingPlaces (by decide))
    through_json_rereads

def driftingPlaces : List (List (ColumnName × Value)) :=
  [placeEntry 1 "a" (1351079888211149 / 2 ^ 52) 10, placeEntry 2 "b" (9 / 4) 20]

/-- The source's place is deduped, and the undo puts the f64 nearest to 0.3 back. -/
theorem deduped_place_returns_rounded :
    (onlyTable .readingProgress (driftingPlaces.map Row.of) oneReader).Valid ∧
      (onlyTable .readingProgress (driftingPlaces.map Row.of) oneReader).Typed ∧
      throughJson (.real (1351079888211149 / 2 ^ 52)) = .real (5404319552844595 / 2 ^ 54) ∧
      ∃ merged snapshot restored,
        mergeRows throughJson "a" "b" 100
          (onlyTable .readingProgress (driftingPlaces.map Row.of) oneReader) =
            .ok (merged, snapshot) ∧
        restoreRelocation throughJson "a" "b" 200 snapshot (laterDeletedRows []) merged =
          .ok restored ∧
        .readingProgress ∈ relocatedTables ∧
        ¬SameRows .readingProgress (restored.tables .readingProgress)
          ((onlyTable .readingProgress (driftingPlaces.map Row.of) oneReader).tables
            .readingProgress) := by
  have valid := only_table_valid .readingProgress oneReader driftingPlaces (by decide) (by decide)
  have typed := only_table_typed .readingProgress oneReader driftingPlaces (by decide)
  have printed : throughJson (.real (1351079888211149 / 2 ^ 52)) =
      .real (5404319552844595 / 2 ^ 54) := by decide +kernel
  have different : ("a" : Uuid) ≠ "b" := by decide
  obtain ⟨snapshot, restored, merged, undone, same⟩ :=
    merged_then_restored 100 200 different valid typed through_json_rereads
  refine ⟨valid, typed, printed, _, snapshot, restored, merged, undone, by decide, ?_⟩
  rw [same .readingProgress (by decide)]
  intro reals
  have deleted : Row.of (placeEntry 1 "a" (1351079888211149 / 2 ^ 52) 10) ∈
      deletedRows "a" "b" .readingProgress
        ((onlyTable .readingProgress (driftingPlaces.map Row.of) oneReader).tables
          .readingProgress) := by
    rw [deletedRows, List.mem_filter]
    exact ⟨by simp [onlyTable, driftingPlaces], by decide +kernel⟩
  have kept := reals _ deleted .audioPositionSeconds _ rfl
  rw [printed] at kept
  revert kept
  decide +kernel

end Example

end Omnibus.Merge
