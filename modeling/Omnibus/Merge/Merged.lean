import Omnibus.Merge.Settle

/-!
# The merged tables

The retarget of every table succeeds, since a settled table has no two rows that would
come to share a key. The rows of a merged table are the surviving stored rows, each carried
over by itself.
-/

namespace Omnibus.Merge

open Omnibus.Library.Sql

section Carry

variable (source target : Uuid) (now : Int)

def carry (name : TableName) (table : DbTable) (row : DbRow) : DbRow :=
  if onBook source row then
    retargetSet name target now (adjust source target name table row)
  else adjust source target name table row

def mergedTable (name : TableName) (table : DbTable) : DbTable :=
  (settledTable source target name table).update (onBook source) (retargetSet name target now)

theorem on_book_adjust (book : Uuid) (name : TableName) (table : DbTable) (row : DbRow) :
    onBook book (adjust source target name table row) = onBook book row := by
  simp only [onBook, adjust_of_ne source target name table row .bookUuid (by decide)
    (by decide)]

theorem retarget_set_book (name : TableName) (book : Uuid) (row : DbRow) :
    retargetSet name book now row .bookUuid = .text book := by
  unfold retargetSet
  split <;> simp

theorem retarget_set_of_ne (name : TableName) (book : Uuid) (row : DbRow) {column : ColumnName}
    (other : column ≠ .bookUuid) (unstamped : name = .annotations → column ≠ .updatedAt) :
    retargetSet name book now row column = row column := by
  unfold retargetSet
  split
  · simp [unstamped rfl, other]
  · simp [other]

theorem carry_of_ne (name : TableName) (table : DbTable) (row : DbRow) {column : ColumnName}
    (other : column ≠ .bookUuid) (clock : column ≠ .sittingObservedAt)
    (gain : column ≠ .percentGained) (unstamped : name = .annotations → column ≠ .updatedAt) :
    carry source target now name table row column = row column := by
  unfold carry
  split
  · rw [retarget_set_of_ne now name target _ other unstamped,
      adjust_of_ne source target name table row column clock gain]
  · exact adjust_of_ne source target name table row column clock gain

theorem carry_book (name : TableName) (table : DbTable) (row : DbRow) :
    carry source target now name table row .bookUuid =
      if onBook source row then .text target else row .bookUuid := by
  unfold carry
  split
  · exact retarget_set_book now name target _
  · exact adjust_of_ne source target name table row .bookUuid (by decide) (by decide)

theorem merged_records (different : source ≠ target) (name : TableName) (table : DbTable) :
    (mergedTable source target now name table).records =
      (table.records.filter fun record => kept source target name table record.row).map
        fun record => ⟨record.rowid, carry source target now name table record.row⟩ := by
  rw [mergedTable, Table.update_eq_map_rows, Table.mapRows,
    settled_records source target different, List.map_map]
  apply List.map_congr_left
  intro record _
  simp only [Function.comp, carry, on_book_adjust]

theorem merged_rows (different : source ≠ target) (name : TableName) (table : DbTable) :
    (mergedTable source target now name table).rows =
      (table.rows.filter (kept source target name table)).map
        (carry source target now name table) := by
  simp [Table.rows, merged_records source target now different, List.filter_map,
    Function.comp_def]

theorem rule_covers (name : TableName) : ∀ key ∈ name.keys, .bookUuid ∈ key →
    ((rule name).any fun collision => collision.keys.all fun column =>
      decide (column ∈ key)) = true := by
  cases name <;> decide

theorem key_columns (name : TableName) : ∀ key ∈ name.keys, ∀ column ∈ key,
    column ≠ .sittingObservedAt ∧ column ≠ .percentGained ∧ column ≠ .updatedAt := by
  cases name <;> decide

theorem kept_apart (different : source ≠ target) (name : TableName) (table : DbTable)
    (collision : Collision) (ruled : rule name = some collision) {left right : DbRow}
    (leftMem : left ∈ table.rows) (rightMem : right ∈ table.rows)
    (onSource : onBook source left = true) (onTarget : onBook target right = true)
    (leftKept : kept source target name table left = true)
    (rightKept : kept source target name table right = true) :
    agree collision.keys left right = false := by
  rw [Bool.eq_false_iff]
  intro agreed
  have notSource : onBook source right = false := by
    rw [Bool.eq_false_iff]
    intro also
    rw [on_book_exclusive different also] at onTarget
    cases onTarget
  simp only [kept, ruled, survives, onSource, onTarget, notSource, if_true, Bool.false_eq_true,
    if_false, Bool.not_eq_true'] at leftKept rightKept
  simp only [Bool.or_eq_true, decide_eq_true_eq, Bool.not_eq_true', List.any_eq_false,
    Bool.and_eq_true, not_and] at rightKept
  rcases rightKept with always | unbeaten
  · simp only [beaten, always, Keep.targetWins, Bool.and_true, List.any_eq_false,
      Bool.and_eq_true, not_and] at leftKept
    exact leftKept right rightMem onTarget ((agree_comm _ _ _).trans agreed)
  · exact unbeaten left leftMem ⟨onSource, leftKept⟩ agreed

theorem merged_keyed (different : source ≠ target) (name : TableName) (table : DbTable)
    (unique : Keyed name.keys table.rows) :
    Keyed name.keys (mergedTable source target now name table).rows := by
  rw [merged_rows source target now different, Keyed, List.pairwise_map]
  refine List.Pairwise.imp_of_mem (fun {left right} leftMem rightMem apart key member => ?_)
    (unique.sublist List.filter_sublist)
  rw [Bool.eq_false_iff]
  intro agreed
  rw [List.mem_filter] at leftMem rightMem
  rw [agree_iff] at agreed
  have same : ∀ column ∈ key, column ≠ .bookUuid →
      left column ≠ .null ∧ left column = right column := by
    intro column columnMem other
    obtain ⟨clock, gain, stamp⟩ := key_columns name key member column columnMem
    have shared := agreed column columnMem
    rw [carry_of_ne source target now name table left other clock gain fun _ => stamp,
      carry_of_ne source target now name table right other clock gain fun _ => stamp] at shared
    exact shared
  have clash (sameBook : .bookUuid ∈ key →
      left .bookUuid ≠ .null ∧ left .bookUuid = right .bookUuid) : False := by
    have agreement : agree key left right = true := by
      rw [agree_iff]
      intro column columnMem
      by_cases book : column = .bookUuid
      · subst book
        exact sameBook columnMem
      · exact same column columnMem book
    rw [apart key member] at agreement
    cases agreement
  by_cases bookKey : .bookUuid ∈ key
  · have book := agreed .bookUuid bookKey
    rw [carry_book, carry_book] at book
    have covers := rule_covers name key member bookKey
    rw [Option.any_eq_true] at covers
    obtain ⟨collision, ruled, within⟩ := covers
    simp only [List.all_eq_true, decide_eq_true_eq] at within
    have noBook : ∀ column ∈ collision.keys, column ≠ .bookUuid := by
      cases name <;> first | (cases ruled; decide) | cases ruled
    have onKeys : agree collision.keys left right = true := by
      rw [agree_iff]
      exact fun column columnMem => same column (within column columnMem) (noBook column columnMem)
    by_cases leftSource : onBook source left = true
    · by_cases rightSource : onBook source right = true
      · apply clash
        intro _
        rw [on_book_iff] at leftSource rightSource
        rw [leftSource, rightSource]
        exact ⟨by simp, rfl⟩
      · simp only [leftSource, rightSource, if_true, Bool.false_eq_true, if_false] at book
        have onTarget : onBook target right = true := (on_book_iff target right).mpr book.2.symm
        rw [kept_apart source target different name table collision ruled leftMem.1 rightMem.1
          leftSource onTarget leftMem.2 rightMem.2] at onKeys
        cases onKeys
    · by_cases rightSource : onBook source right = true
      · simp only [leftSource, rightSource, if_true, Bool.false_eq_true, if_false] at book
        have onTarget : onBook target left = true := (on_book_iff target left).mpr book.2
        rw [agree_comm, kept_apart source target different name table collision ruled rightMem.1
          leftMem.1 rightSource onTarget rightMem.2 leftMem.2] at onKeys
        cases onKeys
      · apply clash
        intro _
        simpa only [leftSource, rightSource, Bool.false_eq_true, if_false] using book
  · exact clash fun inKey => absurd inKey bookKey

end Carry

section Success

variable (source target : Uuid) (now : Int)

def mergedDb (db : Db) : Db :=
  { db with tables := fun name =>
      mergedTable source target now name (reviewed source target name (db.tables name)) }

theorem all_retargeted (name : TableName) : name ∈ retargetTables := by
  cases name <;> decide

theorem reviewed_keyed (name : TableName) (parents : Parent → List Value) (table : DbTable)
    (stored : Stored name parents table) :
    Keyed name.keys (reviewed source target name table).rows := by
  unfold reviewed
  split
  · obtain ⟨change, keeps, settled⟩ := settle_reviews_rows source target table
      fun row member => stored.numbered row member .userId (by simp) (by decide)
    rw [settled, Table.map_rows_rows]
    apply stored.keyed.map change
    intro row _ key keyMem column columnMem
    apply keeps row column
    have reviewKeys : ∀ key ∈ TableName.reviews.keys, ∀ column ∈ key,
        column ∈ [.id, .userId, .bookUuid] := by
      decide
    exact reviewKeys key keyMem column columnMem
  · exact stored.keyed

theorem move_progress_and_history (different : source ≠ target) (db : Db) (valid : db.Valid) :
    moveProgressAndHistory source target now db = .ok (mergedDb source target now db) := by
  have retargeted (name : TableName) : retarget source target now name
      ((settleCollisions source target db).tables name) =
      .ok (mergedTable source target now name (reviewed source target name (db.tables name))) := by
    rw [settle_tables]
    exact if_pos (merged_keyed source target now different name _
      (reviewed_keyed source target name db.parents _ (valid name)))
  unfold moveProgressAndHistory
  rw [Db.modify_all retargetTables (by decide) _ (fun _ => retarget source target now) _
    fun name _ => retargeted name]
  simp only [mergedDb, settle_parents, all_retargeted, if_true]

end Success

end Omnibus.Merge
