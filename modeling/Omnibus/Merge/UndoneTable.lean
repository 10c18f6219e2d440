import Omnibus.Merge.Reinserted

/-!
# Undoing a merge in one table

The three steps of the replay, table by table: the moved rows go back, the deleted rows are
put back, and a cleared sitting clock is set again.
-/

namespace Omnibus.Merge

open Omnibus.Library.Sql

section Clocks

/-- A mark as it is, or with its sitting clock cleared. -/
def ClearsClock (clear : DbRow → DbRow) : Prop :=
  ∀ row, clear row = row ∨ clear row = Function.update row .sittingObservedAt .null

theorem clears_of_ne {clear : DbRow → DbRow} (clears : ClearsClock clear) (row : DbRow)
    {column : ColumnName} (other : column ≠ .sittingObservedAt) :
    clear row column = row column := by
  rcases clears row with same | cleared
  · rw [same]
  · rw [cleared, Function.update_of_ne other]

theorem cleared_row_clears (source target : Uuid) (table : DbTable) :
    ClearsClock (clearedRow source target table) := by
  intro row
  unfold clearedRow
  split
  · exact .inr rfl
  · exact .inl rfl

theorem restore_clock_row {clear : DbRow → DbRow} (clears : ClearsClock clear)
    {row : DbRow} {done later : List DbRow} {table : DbTable}
    (apart : ∀ other ∈ done ++ later, agree [.userId, .bookUuid, .format] other row = false)
    (present : ∀ column ∈ TableName.readingProgressMarks.primaryKey, row column ≠ .null)
    (held : table.rows.Perm (done ++ clear row :: later)) :
    (restoreClock table (record id TableName.readingProgressMarks.columns row)).rows.Perm
      (done ++ row :: later) := by
  have recorded (column : ColumnName)
      (listed : column ∈ TableName.readingProgressMarks.columns) :
      (record id TableName.readingProgressMarks.columns row).column column = row column :=
    record_column _ _ listed
  set selects : DbRow → Bool := fun stored =>
    (stored .bookUuid).equals (row .bookUuid) && (stored .userId).equals (row .userId) &&
      (stored .format).equals (row .format) && stored .sittingObservedAt = .null with isSelects
  have unselected (other : DbRow) (member : other ∈ done ++ later) : selects other = false := by
    have different := apart other member
    simp only [agree, List.all_cons, List.all_nil, Bool.and_true] at different
    simp only [isSelects]
    revert different
    cases (other .bookUuid).equals (row .bookUuid) <;>
      cases (other .userId).equals (row .userId) <;>
      cases (other .format).equals (row .format) <;> simp
  unfold restoreClock
  rw [recorded _ (by decide), recorded _ (by decide), recorded _ (by decide),
    recorded _ (by decide), Table.update_rows]
  change (table.rows.map fun stored => if selects stored = true then
    Function.update stored .sittingObservedAt (row .sittingObservedAt) else stored).Perm _
  refine (held.map _).trans (List.Perm.of_eq ?_)
  have kept (list : List DbRow) (inside : ∀ other ∈ list, selects other = false) :
      (list.map fun stored => if selects stored = true then
        Function.update stored .sittingObservedAt (row .sittingObservedAt) else stored) =
        list := by
    conv_rhs => rw [← List.map_id list]
    exact List.map_congr_left fun other member => by simp [inside other member]
  have own : (if selects (clear row) = true then
      Function.update (clear row) .sittingObservedAt (row .sittingObservedAt)
      else clear row) = row := by
    split
    · rcases clears row with same | cleared
      · rw [same, Function.update_eq_self]
      · rw [cleared, Function.update_idem, Function.update_eq_self]
    · rename_i passed
      rcases clears row with same | cleared
      · exact same
      · refine absurd ?_ passed
        simp only [isSelects, cleared, Function.update_self, decide_true, Bool.and_true,
          Bool.and_eq_true, Value.equals_iff]
        exact ⟨⟨⟨present .bookUuid (by decide), rfl⟩, present .userId (by decide), rfl⟩,
          present .format (by decide), rfl⟩
  rw [List.map_append, List.map_cons, own,
    kept done fun other member => unselected other (List.mem_append_left _ member),
    kept later fun other member => unselected other (List.mem_append_right _ member)]

theorem restore_clocks_all {clear : DbRow → DbRow} (clears : ClearsClock clear)
    (others rest : List DbRow) :
    ∀ (done : List DbRow) (table : DbTable),
      Keyed TableName.readingProgressMarks.keys (done ++ (rest ++ others)) →
      (∀ row ∈ rest, ∀ column ∈ TableName.readingProgressMarks.primaryKey,
        row column ≠ .null) →
      table.rows.Perm (done ++ (rest.map clear ++ others)) →
      ((rest.map (record id TableName.readingProgressMarks.columns)).foldl restoreClock
        table).rows.Perm (done ++ (rest ++ others)) := by
  induction rest with
  | nil =>
      intro done table _ _ held
      simpa using held
  | cons row rest induction =>
      intro done table keyed present held
      have apart : ∀ other ∈ done ++ (rest ++ others),
          agree [.userId, .bookUuid, .format] other row = false := by
        intro other member
        have isKey : [.userId, .bookUuid, .format] ∈ TableName.readingProgressMarks.keys := by
          decide
        rw [Keyed.append_iff] at keyed
        rw [List.mem_append] at member
        rcases member with isDone | isLater
        · exact keyed.2.2 other isDone row (by simp) _ isKey
        · rw [agree_comm]
          exact (List.pairwise_cons.mp keyed.2.1).1 other isLater _ isKey
      have clearedApart : ∀ other ∈ done ++ (rest.map clear ++ others),
          agree [.userId, .bookUuid, .format] other row = false := by
        intro other member
        rw [List.mem_append, List.mem_append] at member
        rcases member with isDone | isLater | isOther
        · exact apart other (by simp [isDone])
        · obtain ⟨later, laterMem, rfl⟩ := List.mem_map.mp isLater
          have same : agree [.userId, .bookUuid, .format] (clear later) row =
              agree [.userId, .bookUuid, .format] later row := by
            refine agree_congr (fun column isKey => clears_of_ne clears later ?_)
              fun _ _ => rfl
            intro equal
            subst equal
            revert isKey
            decide
          rw [same]
          exact apart later (by simp [laterMem])
        · exact apart other (by simp [isOther])
      have restored := restore_clock_row clears clearedApart (present row List.mem_cons_self) held
      rw [List.map_cons, List.foldl_cons]
      have run := induction (done ++ [row]) _
        (by simpa [List.append_assoc] using keyed)
        (fun other member => present other (List.mem_cons_of_mem _ member))
        (by simpa [List.append_assoc] using restored)
      simpa [List.append_assoc] using run

end Clocks

section Phases

variable {source target : Uuid} {name : TableName} {table : DbTable}

def remainingRows (source target : Uuid) (name : TableName) (table : DbTable) : List DbRow :=
  table.rows.filter fun row => !onBook source row && kept source target name table row

theorem kept_rows_split (source target : Uuid) (name : TableName) (table : DbTable) :
    (table.rows.filter (kept source target name table)).Perm
    (movedRows source target name table ++ remainingRows source target name table) := by
  have split := List.filter_append_perm (onBook source)
    (table.rows.filter (kept source target name table))
  simp only [List.filter_filter] at split
  exact split.symm

theorem stored_rows_split (source target : Uuid) (name : TableName) (table : DbTable) :
    table.rows.Perm (movedRows source target name table ++ remainingRows source target name table ++
      deletedRows source target name table) :=
  (List.filter_append_perm (kept source target name table) table.rows).symm.trans
    ((kept_rows_split source target name table).append_right _)

theorem adjust_source (different : source ≠ target) (row : DbRow)
    (onSource : onBook source row = true) {column : ColumnName}
    (clock : column ≠ .sittingObservedAt) :
    adjust source target name table row column = row column := by
  unfold adjust clearedRow foldedRow
  split
  · split
    · exact Function.update_of_ne clock _ _
    · rfl
  · simp [on_book_exclusive different onSource]
  · simp [on_book_exclusive different onSource]
  · rfl

theorem carry_remaining (now : Int) {row : DbRow}
    (member : row ∈ remainingRows source target name table) :
    carry source target now name table row = adjust source target name table row := by
  simp only [remainingRows, List.mem_filter, Bool.and_eq_true, Bool.not_eq_true'] at member
  simp [carry, member.2.1]

theorem carried_rows (different : source ≠ target) (now : Int)
    (keyed : Keyed name.keys table.rows) :
    Carried source target name (movedRows source target name table)
      (carry source target now name table)
      ((remainingRows source target name table).map (adjust source target name table)) where
  different := different
  keyed := by
    have merged := merged_keyed source target now different name table keyed
    rw [merged_rows source target now different] at merged
    have split := merged.perm ((kept_rows_split source target name table).map _)
    rwa [List.map_append, List.map_congr_left fun row member => carry_remaining now member]
      at split
  onTarget row member := by
    simp only [movedRows, List.mem_filter, Bool.and_eq_true] at member
    rw [carry_book, if_pos member.2.1]
  fields row member column notBook clock unstamped := by
    simp only [movedRows, List.mem_filter, Bool.and_eq_true] at member
    rw [carry, if_pos member.2.1, retarget_set_of_ne now name target _ notBook unstamped]
    exact adjust_source different row member.2.1 clock
  foreign row member := by
    obtain ⟨other, otherMem, rfl⟩ := List.mem_map.mp member
    simp only [remainingRows, List.mem_filter, Bool.and_eq_true, Bool.not_eq_true'] at otherMem
    rw [on_book_adjust]
    exact otherMem.2.1

theorem merged_rows_split (different : source ≠ target) (now : Int) :
    (mergedTable source target now name table).rows.Perm
      ((movedRows source target name table).map (carry source target now name table) ++
        (remainingRows source target name table).map (adjust source target name table)) := by
  rw [merged_rows source target now different]
  refine ((kept_rows_split source target name table).map _).trans (List.Perm.of_eq ?_)
  rw [List.map_append,
    List.map_congr_left (l := remainingRows _ _ _ _) fun row member => carry_remaining now member]

theorem moved_unchanged (json : Value → Value) (different : source ≠ target) (now : Int)
    {parents : Parent → List Value} (stored : Stored name parents table)
    (kept : KeptBut json name table.rows)
    (row : DbRow) (member : row ∈ movedRows source target name table) :
    Unchanged json name
      (if name ∈ currentValueTables then
        ((movedRows source target name table).map (reread json)).map (whole name)
        else [])
      (carry source target now name table) row := by
  intro recorded found
  have sameId : recorded.id = record id (identity name) row := by
    simpa using List.find?_some found
  refine ⟨sameId, ?_⟩
  have inRecord := List.mem_of_find?_eq_some found
  by_cases current : name ∈ currentValueTables
  · rw [if_pos current] at inRecord
    rw [List.map_map] at inRecord
    obtain ⟨other, otherMem, rfl⟩ := List.mem_map.mp inRecord
    have rowOf := member
    simp only [movedRows, List.mem_filter, Bool.and_eq_true] at rowOf otherMem
    -- the identity and the source name one row
    have same : other = row := by
      apply stored.keyed.eq_of_agree otherMem.1 rowOf.1 name.primaryKey List.mem_cons_self
      rw [agree_iff]
      intro column inKey
      refine ⟨stored.present other otherMem.1 column (List.mem_cons_of_mem _ inKey), ?_⟩
      rcases primary_key_columns name column inKey with rfl | named
      · rw [(on_book_iff source other).mp otherMem.2.1, (on_book_iff source row).mp rowOf.2.1]
      · have columns := congrArg (fun object : Object => object.column column) sameId
        simp only [Function.comp, whole, record_column _ _ named, reread] at columns
        rwa [kept other otherMem.1 column (identity_unreal name column named)] at columns
    subst same
    simp only [Function.comp, whole, record, reread, List.filter_map]
    apply List.map_congr_left
    intro column inside
    simp only [List.mem_filter, Function.comp, decide_eq_true_eq, mergeWritten, List.mem_cons,
      List.not_mem_nil, or_false, not_or] at inside
    have unstamped : name = .annotations → column ≠ .updatedAt := by
      intro equal
      subst equal
      exact absurd current (by decide)
    have fields := (carried_rows different now stored.keyed).fields other member column
      inside.2.1 inside.2.2 unstamped
    rw [fields]
    rfl
  · rw [if_neg current] at inRecord
    cases inRecord

theorem deleted_on_source {collision : Collision} (ruled : rule name = some collision)
    (keepsTarget : collision.keep = .target) {row : DbRow}
    (member : row ∈ deletedRows source target name table) : onBook source row = true := by
  simp only [deletedRows, List.mem_filter, Bool.not_eq_true', kept, ruled, survives, keepsTarget]
    at member
  by_contra other
  simp [other] at member

section Ledger

variable {bucket : ColumnName}

theorem gained_deleted (ruled : rule name = some ⟨name, [.userId, bucket, .format], .target⟩)
    {row : DbRow} (member : row ∈ table.rows) (onTarget : onBook target row = true) :
    gainedInBucket [.userId, bucket, .format] (table.rows.filter (onBook source)) row =
      gainedInBucket [.userId, bucket, .format] (deletedRows source target name table) row := by
  unfold gainedInBucket
  congr 2
  rw [deletedRows, List.filter_filter, List.filter_filter]
  apply List.filter_congr
  intro other otherMem
  by_cases agreed : agree [.userId, bucket, .format] other row = true
  · simp only [agreed, Bool.true_and]
    cases survived : kept source target name table other
    · have isDeleted : other ∈ deletedRows source target name table :=
        List.mem_filter.mpr ⟨otherMem, by simp [survived]⟩
      exact deleted_on_source ruled rfl isDeleted
    · rw [Bool.not_true, Bool.eq_false_iff]
      intro onSource
      simp only [kept, ruled, survives, onSource, if_true, beaten, Keep.targetWins, Bool.and_true,
        Bool.not_eq_true', List.any_eq_false, Bool.and_eq_true, not_and] at survived
      exact survived row member onTarget ((agree_comm _ _ _).trans agreed)
  · simp [agreed]

theorem folded_eq (ruled : rule name = some ⟨name, [.userId, bucket, .format], .target⟩)
    (counted : ∀ row ∈ table.rows, (row .percentGained).IsCount) {row : DbRow}
    (member : row ∈ table.rows) :
    foldedRow source target bucket table row =
      withFolded target bucket (deletedRows source target name table) row := by
  unfold foldedRow withFolded
  by_cases onTarget : onBook target row = true
  · rw [gained_deleted ruled member onTarget]
    by_cases partner : hasPartner table source [.userId, bucket, .format] row = true
    · simp [onTarget, partner]
    · have none : (deletedRows source target name table).filter
          (fun other => agree [.userId, bucket, .format] other row) = [] := by
        rw [List.filter_eq_nil_iff]
        intro other otherMem agreed
        have onSource := deleted_on_source ruled rfl otherMem
        rw [hasPartner, List.any_eq_true] at partner
        exact partner ⟨other, List.mem_of_mem_filter otherMem, by simp [onSource, agreed]⟩
      have same : (row .percentGained).plus (gainedInBucket [.userId, bucket, .format]
          (deletedRows source target name table) row) = row .percentGained := by
        rw [(gain_of_count (counted row member)).1]
        simp [gainedInBucket, none, Value.plus]
      simp [onTarget, partner, same, Function.update_eq_self]
  · simp [onTarget]

end Ledger

/-- What the remaining rows are while `rest` is still to go back. -/
def whileDeleted (target : Uuid) (name : TableName) (settled : DbRow → DbRow)
    (rest : List DbRow) (row : DbRow) : DbRow :=
  match ledgerCounterTables.find? (·.1 = name) with
  | some entry => withFolded target entry.2 rest row
  | none => settled row

theorem ledger_tables (source target : Uuid) {entry : TableName × ColumnName}
    (isLedger : ledgerCounterTables.find? (·.1 = name) = some entry) :
    rule name = some ⟨name, [.userId, entry.2, .format], .target⟩ ∧
      entry.2 ≠ .percentGained ∧ entry.2 ≠ .bookUuid ∧
      (∀ column ∈ [.bookUuid, .userId, entry.2, .format, .percentGained],
        column ∈ name.columns) ∧
      (∀ table row, adjust source target name table row =
        foldedRow source target entry.2 table row) := by
  cases name <;> first
    | (cases isLedger
       exact ⟨rfl, by decide, by decide, by decide, fun _ _ => rfl⟩)
    | cases isLedger

theorem ledger_unreal {entry : TableName × ColumnName}
    (isLedger : ledgerCounterTables.find? (·.1 = name) = some entry) : name.realColumns = [] := by
  cases name <;> first | rfl | cases isLedger

theorem while_deleted_start {parents : Parent → List Value} (stored : Stored name parents table)
    {row : DbRow} (member : row ∈ table.rows) :
    whileDeleted target name (adjust source target name table)
      (deletedRows source target name table) row = adjust source target name table row := by
  unfold whileDeleted
  split
  · rename_i entry isLedger
    obtain ⟨ruled, _, _, columns, adjusted⟩ := ledger_tables source target isLedger
    rw [adjusted]
    exact (folded_eq ruled (fun other otherMem =>
      stored.counted other otherMem (columns .percentGained (by simp))) member).symm
  · rfl

theorem while_deleted_ledger {entry : TableName × ColumnName}
    (isLedger : ledgerCounterTables.find? (·.1 = name) = some entry) (settled : DbRow → DbRow)
    (rest : List DbRow) :
    whileDeleted target name settled rest = withFolded target entry.2 rest := by
  funext row
  simp only [whileDeleted, isLedger]

theorem while_deleted_plain (plain : ledgerCounterTables.find? (·.1 = name) = none)
    (settled : DbRow → DbRow) (rest : List DbRow) :
    whileDeleted target name settled rest = settled := by
  funext row
  simp only [whileDeleted, plain]

theorem while_deleted_of_ne (settled : DbRow → DbRow) (rest : List DbRow) (row : DbRow)
    {column : ColumnName} (gain : column ≠ .percentGained)
    (kept : settled row column = row column) :
    whileDeleted target name settled rest row column = row column := by
  cases isLedger : ledgerCounterTables.find? (·.1 = name) with
  | some entry =>
      simp only [whileDeleted, isLedger]
      exact with_folded_of_ne _ _ column gain
  | none =>
      simp only [whileDeleted, isLedger]
      exact kept

def sentBack (source target : Uuid) (mergedAt undoneAt : Int) (name : TableName)
    (table : DbTable) (row : DbRow) : DbRow :=
  retargetSet name source undoneAt (carry source target mergedAt name table row)

theorem sent_back_of_ne (different : source ≠ target) (mergedAt undoneAt : Int) {row : DbRow}
    (member : row ∈ movedRows source target name table) {column : ColumnName}
    (clock : column ≠ .sittingObservedAt)
    (unstamped : name = .annotations → column ≠ .updatedAt) :
    sentBack source target mergedAt undoneAt name table row column = row column := by
  simp only [movedRows, List.mem_filter, Bool.and_eq_true] at member
  by_cases book : column = .bookUuid
  · subst book
    rw [sentBack, retarget_set_book, (on_book_iff source row).mp member.2.1]
  · rw [sentBack, retarget_set_of_ne undoneAt name source _ book unstamped, carry,
      if_pos member.2.1, retarget_set_of_ne mergedAt name target _ book unstamped]
    exact adjust_source different row member.2.1 clock

section Undo

variable (json : Value → Value) {parents : Parent → List Value} (mergedAt undoneAt : Int)

/-- The moved rows go back from the merged table, or from any table with its rows. -/
theorem moved_rows_return (different : source ≠ target) (stored : Stored name parents table)
    (kept : KeptBut json name table.rows) (merged : DbTable)
    (rows : merged.rows.Perm (mergedTable source target mergedAt name table).rows) :
    ∃ after, ((movedRows source target name table).map (record id (identity name))).foldlM
        (restoreMoved json source target undoneAt parents name
          (if name ∈ currentValueTables then
            ((movedRows source target name table).map (reread json)).map (whole name)
            else [])) merged = .ok after ∧
      after.rows.Perm
        ((movedRows source target name table).map
            (sentBack source target mergedAt undoneAt name table) ++
          (remainingRows source target name table).map (adjust source target name table)) := by
  have member (row : DbRow) (moved : row ∈ movedRows source target name table) :
      row ∈ table.rows := List.mem_of_mem_filter moved
  refine restore_moved_all json parents _ (movedRows source target name table) [] merged
    (carried_rows different mergedAt stored.keyed) (fun row moved column named => ?_)
    (fun row moved => moved_unchanged json different mergedAt stored kept row moved) ?_
  · exact stored.present row (member row moved) column
      (List.mem_cons_of_mem _ (identity_columns name column named).2.1)
  · exact rows.trans (merged_rows_split different mergedAt)

theorem deleted_rows_return (different : source ≠ target) (stored : Stored name parents table)
    (kept : KeptBut json name table.rows) (moved : DbTable)
    (rows : moved.rows.Perm
      ((movedRows source target name table).map
          (sentBack source target mergedAt undoneAt name table) ++
        (remainingRows source target name table).map (adjust source target name table))) :
    ((((deletedRows source target name table).map (reread json)).map (whole name)).foldl
        (restoreDeleted source target parents name) moved).rows.Perm
      ((movedRows source target name table).map
          (sentBack source target mergedAt undoneAt name table) ++
        (remainingRows source target name table).map
          (whileDeleted target name (adjust source target name table) []) ++
        (deletedRows source target name table).map (reread json)) := by
  have isStored (row : DbRow) (member : row ∈ deletedRows source target name table) :
      row ∈ table.rows := List.mem_of_mem_filter member
  have sound (row : DbRow)
      (member : row ∈ (deletedRows source target name table).map (reread json)) :
      SoundRow name parents row := by
    obtain ⟨deleted, deletedMem, rfl⟩ := List.mem_map.mp member
    have inTable := isStored deleted deletedMem
    exact (stored.row inTable).reread (kept deleted inTable)
  have isRemaining (row : DbRow) (member : row ∈ remainingRows source target name table) :
      row ∈ table.rows := List.mem_of_mem_filter member
  refine restore_deleted_all source target
    ((deletedRows source target name table).map (reread json))
    (fun rest => (movedRows source target name table).map
        (sentBack source target mergedAt undoneAt name table) ++
      (remainingRows source target name table).map
        (whileDeleted target name (adjust source target name table) rest))
    sound ?_ ?_ _ [] moved rfl ?_
  · intro rest
    have split : table.rows.Perm (remainingRows source target name table ++
        (movedRows source target name table ++ deletedRows source target name table)) := by
      apply (stored_rows_split source target name table).trans
      rw [← List.append_assoc]
      exact List.perm_append_comm.append_right _
    have remaining : Keyed name.keys ((remainingRows source target name table).map
        (whileDeleted target name (adjust source target name table) rest) ++
        (movedRows source target name table ++ deletedRows source target name table)) := by
      apply (stored.keyed.perm split).map_append _
      intro row _ key isKey column inKey
      obtain ⟨clock, gain, _⟩ := key_columns name key isKey column inKey
      exact while_deleted_of_ne _ rest row gain
        (adjust_of_ne source target name table row column clock gain)
    have restored : Keyed name.keys ((deletedRows source target name table).map (reread json) ++
        ((remainingRows source target name table).map
          (whileDeleted target name (adjust source target name table) rest) ++
          movedRows source target name table)) := by
      rw [← List.append_assoc] at remaining
      apply (remaining.perm List.perm_append_comm).map_append _
      intro row member key isKey column inKey
      exact kept row (isStored row member) column (key_unreal name key isKey column inKey)
    have swapped : ((deletedRows source target name table).map (reread json) ++
        ((remainingRows source target name table).map
          (whileDeleted target name (adjust source target name table) rest) ++
          movedRows source target name table)).Perm
        (movedRows source target name table ++ ((remainingRows source target name table).map
          (whileDeleted target name (adjust source target name table) rest) ++
          (deletedRows source target name table).map (reread json))) := by
      refine (List.perm_append_comm).trans ?_
      rw [← List.append_assoc]
      exact List.perm_append_comm.append_right _
    rw [List.append_assoc]
    apply (restored.perm swapped).map_append _
    intro row member key isKey column inKey
    obtain ⟨clock, _, stamp⟩ := key_columns name key isKey column inKey
    exact sent_back_of_ne different mergedAt undoneAt member clock fun _ => stamp
  · intro row rest done held rowMem restMem doneMem heldRows
    unfold unfolded
    cases isLedger : ledgerCounterTables.find? (·.1 = name) with
    | none =>
        rw [while_deleted_plain isLedger] at heldRows ⊢
        exact heldRows
    | some entry =>
        obtain ⟨ruled, gain, _, columns, _⟩ := ledger_tables source target isLedger
        rw [reread_unreal (fun row member => kept row (isStored row member))
          (ledger_unreal isLedger)] at rowMem restMem doneMem
        have counted (other : DbRow) (member : other ∈ table.rows) :=
          stored.counted other member (columns .percentGained (by simp))
        have offTarget (other : DbRow) (onSource : onBook source other = true) :
            onBook target other = false := on_book_exclusive different onSource
        have unfold := unfold_ledger_row source target name gain columns row rest
          (done ++ (movedRows source target name table).map
            (sentBack source target mergedAt undoneAt name table))
          (remainingRows source target name table) held
          (deleted_on_source ruled rfl rowMem)
          (fun other member => by
            rw [List.cons_append, List.mem_cons, List.mem_append] at member
            rcases member with rfl | inRest | inOthers
            · exact counted other (isStored other rowMem)
            · exact counted other (isStored other (restMem other inRest))
            · exact counted other (isRemaining other inOthers))
          (fun other member => by
            rw [List.mem_append] at member
            rcases member with isDone | isMoved
            · exact offTarget other (deleted_on_source ruled rfl (doneMem other isDone))
            · obtain ⟨moved, _, rfl⟩ := List.mem_map.mp isMoved
              refine offTarget _ ((on_book_iff source _).mpr ?_)
              exact retarget_set_book undoneAt name source _)
        rw [while_deleted_ledger isLedger] at heldRows ⊢
        have rotate (tail : List DbRow) :
            ((movedRows source target name table).map
              (sentBack source target mergedAt undoneAt name table) ++ tail ++ done).Perm
            (done ++ (movedRows source target name table).map
              (sentBack source target mergedAt undoneAt name table) ++ tail) := by
          rw [List.append_assoc done]
          exact List.perm_append_comm
        exact (unfold (heldRows.trans (rotate _))).trans (rotate _).symm
  · rw [List.append_nil]
    refine rows.trans (List.Perm.of_eq ?_)
    congr 1
    apply List.map_congr_left
    intro row member
    rw [← while_deleted_start stored (isRemaining row member)]
    cases isLedger : ledgerCounterTables.find? (·.1 = name) with
    | some entry =>
        rw [reread_unreal (fun row member => kept row (isStored row member))
          (ledger_unreal isLedger)]
    | none => rw [while_deleted_plain isLedger, while_deleted_plain isLedger]

end Undo

end Phases

end Omnibus.Merge
