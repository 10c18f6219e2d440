import Mathlib.Logic.Function.Basic
import Omnibus.Scan.MovedFiles
import Omnibus.Scan.Unchanged

/-!
# The files an undo gives back

`undo_merge` re-parents the absorbed book's files by id, numbers them per format in the order
of their ids and clears their labels. What a merge did to the target's own files it leaves.
-/

namespace Omnibus.Scan

variable {files : List FileRow} {source : Book} {target restored : Int}

section Model

/-- `fetch_file_formats`. -/
def fetchFileFormat (files : List FileRow) (target : Int) (id : Int) : Option String :=
  (files.find? fun file => file.bookId = target && file.id = id).map (·.format)

/-- The loop of `move_files_back`: a counter for each format; a file that has vanished is
skipped. -/
def assignSequential (formatOf : Int → Option String) (counters : List Char → Int) :
    List Int → List (Int × Int)
  | [] => []
  | id :: rest =>
      match formatOf id with
      | none => assignSequential formatOf counters rest
      | some format =>
          (id, counters (nocase format)) :: assignSequential formatOf
            (Function.update counters (nocase format) (counters (nocase format) + 1)) rest

def reparentFilesWithOrdinals (files : List FileRow) (restored target : Int)
    (assignments : List (Int × Int)) : List FileRow :=
  files.map fun file =>
    match assignments.find? (·.1 = file.id) with
    | some assignment =>
        if file.bookId = target then
          { file with bookId := restored, ordinal := assignment.2, label := none }
        else file
    | none => file

/-- `move_files_back`; a snapshot without ids moves by format. -/
def moveFilesBack (files : List FileRow) (target restored : Int) (fileIds : List Int)
    (formats : List String) : List FileRow :=
  if fileIds ≠ [] then
    reparentFilesWithOrdinals files restored target
      (assignSequential (fetchFileFormat files target) (fun _ => 0) fileIds)
  else
    formats.foldl (fun files format => files.map fun file =>
      if file.bookId = target && sameFormat file.format format then
        { file with bookId := restored }
      else file) files

/-- The files after a merge and its undo, which recreates the absorbed book as `restored`. -/
def undoneFiles (library : Library) (source : Book) (target restored : Int) : List FileRow :=
  let rows := loadFileRows library source.id
  moveFilesBack (migrateBookFiles library.files source target) target restored
    rows.movedFileIds rows.movedFormats

end Model

section Statement

/-- The target has its files as they were, the absorbed book has its own back with their labels
and in their order. -/
structure FilesReturned (before after : List FileRow) (source : Book) (target restored : Int) :
    Prop where
  kept : ∀ file ∈ before, file.bookId = target → ∃ again ∈ after, again.id = file.id ∧
    again.bookId = target ∧ again.ordinal = file.ordinal ∧ again.label = file.label
  noMore : ∀ again ∈ after, again.bookId = target → ∃ file ∈ before, file.bookId = target ∧
    again.id = file.id
  returned : ∀ file ∈ before, file.bookId = source.id → ∃ again ∈ after, again.id = file.id ∧
    again.bookId = restored ∧ again.label = file.label
  order : ∀ file ∈ before, file.bookId = source.id → ∀ other ∈ before,
    other.bookId = source.id → nocase file.format = nocase other.format →
      ∀ again ∈ after, again.id = file.id → ∀ otherAgain ∈ after, otherAgain.id = other.id →
        (again.ordinal < otherAgain.ordinal ↔ file.ordinal < other.ordinal)

/-- Rows of `book_files` under their keys, numbered from 0. -/
structure NumberedFiles (files : List FileRow) : Prop where
  ids : (files.map (·.id)).Nodup
  keys : (files.map FileRow.slotKey).Nodup
  numbered : ∀ file ∈ files, 0 ≤ file.ordinal

/-- The target's files of a format that a merge takes for moved ones and that come before. -/
def beyondOffset (files : List FileRow) (target : Int) (file : FileRow) : Nat :=
  files.countP fun other => other.bookId = target && sameFormat other.format file.format &&
    ordinalOffset ≤ other.ordinal && other.ordinal < file.ordinal

/-- The absorbed book's files have no labels and lie in the order of their ids; the target's
beyond the offset have labels and number on from those below it. -/
structure Returnable (files : List FileRow) (source : Book) (target : Int) : Prop where
  unlabelled : ∀ file ∈ files, file.bookId = source.id → file.label = none
  idOrder : ∀ file ∈ files, file.bookId = source.id → ∀ other ∈ files,
    other.bookId = source.id → nocase file.format = nocase other.format →
      (file.id < other.id ↔ file.ordinal < other.ordinal)
  continued : ∀ file ∈ files, file.bookId = target → ordinalOffset ≤ file.ordinal →
    file.label ≠ none ∧
      file.ordinal = maxExisting files target file.format + 1 + beyondOffset files target file

end Statement

section Counters

variable {formatOf : Int → Option String} {counters : List Char → Int}

theorem assign_sequential_fst (formatOf : Int → Option String) (counters : List Char → Int)
    (ids : List Int) (known : ∀ id ∈ ids, (formatOf id).isSome = true) :
    (assignSequential formatOf counters ids).map (·.1) = ids := by
  induction ids generalizing counters with
  | nil => rfl
  | cons id rest induction =>
      obtain ⟨now, later⟩ := List.forall_mem_cons.mp known
      obtain ⟨format, isFormat⟩ := Option.isSome_iff_exists.mp now
      rw [assignSequential, isFormat]
      change id :: List.map _ _ = _
      rw [induction _ later]

theorem counter_le {ids : List Int} {assignment : Int × Int} {key : List Char}
    (member : assignment ∈ assignSequential formatOf counters ids)
    (isKey : (formatOf assignment.1).map nocase = some key) :
    counters key ≤ assignment.2 := by
  induction ids generalizing counters with
  | nil => exact absurd member List.not_mem_nil
  | cons id rest induction =>
      rw [assignSequential] at member
      split at member
      · exact induction member
      · rename_i own isOwn
        rcases List.mem_cons.mp member with rfl | later
        · rw [isOwn, Option.map_some, Option.some.injEq] at isKey
          rw [isKey]
        · have counted := induction later
          rw [Function.update_apply] at counted
          split at counted
          · rename_i same
            rw [same]
            omega
          · exact counted

theorem assign_sequential_mem {ids : List Int} {assignment : Int × Int}
    (member : assignment ∈ assignSequential formatOf counters ids) : assignment.1 ∈ ids := by
  induction ids generalizing counters with
  | nil => exact absurd member List.not_mem_nil
  | cons id rest induction =>
      rw [assignSequential] at member
      split at member
      · exact List.mem_cons_of_mem _ (induction member)
      · rcases List.mem_cons.mp member with rfl | later
        · exact List.mem_cons_self
        · exact List.mem_cons_of_mem _ (induction later)

theorem assign_sequential_lt {ids : List Int} (sorted : ids.Pairwise (· ≤ ·)) {key : List Char}
    {first second : Int × Int} (firstMem : first ∈ assignSequential formatOf counters ids)
    (secondMem : second ∈ assignSequential formatOf counters ids)
    (firstKey : (formatOf first.1).map nocase = some key)
    (secondKey : (formatOf second.1).map nocase = some key) (before : first.1 < second.1) :
    first.2 < second.2 := by
  induction ids generalizing counters with
  | nil => exact absurd firstMem List.not_mem_nil
  | cons id rest induction =>
      obtain ⟨least, restSorted⟩ := List.pairwise_cons.mp sorted
      rw [assignSequential] at firstMem secondMem
      split at firstMem
      · rename_i unknown
        rw [unknown] at secondMem
        exact induction restSorted firstMem secondMem
      · rename_i own isOwn
        rw [isOwn] at secondMem
        rcases List.mem_cons.mp secondMem with rfl | secondLater
        · -- nothing lies before the first id
          exfalso
          rcases List.mem_cons.mp firstMem with rfl | firstLater
          · exact lt_irrefl _ before
          · exact absurd before (not_lt.mpr (least _ (assign_sequential_mem firstLater)))
        · rcases List.mem_cons.mp firstMem with rfl | firstLater
          · rw [isOwn, Option.map_some, Option.some.injEq] at firstKey
            have counted := counter_le secondLater secondKey
            rw [firstKey, Function.update_self] at counted
            dsimp only
            rw [firstKey]
            omega
          · exact induction restSorted firstLater secondLater

end Counters

section Merged

def mergedFile (files : List FileRow) (source : Book) (target : Int) (file : FileRow) : FileRow :=
  if IsMoved target (moveFile files source target file) then
    placeMoved (moveBookFiles files source target) target source.title
      (moveFile files source target file)
  else moveFile files source target file

theorem migrate_eq_map (ids : (files.map (·.id)).Nodup) (source : Book) (target : Int) :
    migrateBookFiles files source target = files.map (mergedFile files source target) := by
  have movedIds : ((moveBookFiles files source target).map (·.id)).Nodup := by
    rw [moved_ids_map]
    exact ids
  rw [migrateBookFiles, assign_ordinals_eq movedIds, move_book_files_eq, List.map_map]
  rfl

theorem merged_file_fields (files : List FileRow) (source : Book) (target : Int)
    (file : FileRow) : (mergedFile files source target file).id = file.id ∧
      (mergedFile files source target file).bookId =
        (moveFile files source target file).bookId ∧
      (mergedFile files source target file).format = file.format := by
  unfold mergedFile placeMoved assignChunk
  split
  · split
    · exact ⟨move_file_id .., rfl, move_file_format file⟩
    · exact ⟨move_file_id .., rfl, move_file_format file⟩
  · exact ⟨move_file_id .., rfl, move_file_format file⟩

variable (numbered : NumberedFiles files) (different : source.id ≠ target)
include numbered different

omit different in
/-- With a file of the target beyond the offset, every moved file comes after it. -/
theorem moved_beyond {file : FileRow} (member : file ∈ files) (isTarget : file.bookId = target)
    {other : FileRow} (otherMem : other ∈ files) (isSource : other.bookId = source.id) :
    file.ordinal + ordinalOffset ≤ (moveFile files source target other).ordinal := by
  have greatest := ordinal_le_max
    (List.mem_filter.mpr ⟨member, decide_eq_true isTarget⟩ :
      file ∈ files.filter (·.bookId = target))
  have lowest := numbered.numbered other otherMem
  rw [move_file_source isSource]
  simp only [reparent, shiftOrdinal, moveOffset]
  omega

omit different in
theorem moved_keys : ((moveBookFiles files source target).map FileRow.slotKey).Nodup := by
  rw [move_book_files_eq, List.map_map]
  refine List.Nodup.map_on (fun first firstMem second secondMem same => ?_)
    (List.Nodup.of_map _ numbered.ids)
  rw [Function.comp_apply, Function.comp_apply] at same
  have cross {one two : FileRow} (oneMem : one ∈ files) (twoMem : two ∈ files)
      (oneSource : one.bookId = source.id) (twoOther : two.bookId ≠ source.id)
      (same : (moveFile files source target one).slotKey =
        (moveFile files source target two).slotKey) : one = two := by
    exfalso
    rw [move_file_other twoOther] at same
    have sameBook : (moveFile files source target one).bookId = two.bookId :=
      congrArg Prod.fst same
    have sameOrdinal : (moveFile files source target one).ordinal = two.ordinal :=
      congrArg (fun key => key.2.2) same
    have isTarget : two.bookId = target := by
      rw [← sameBook, move_file_source oneSource]
      rfl
    have beyond := moved_beyond numbered twoMem isTarget oneMem oneSource
    unfold ordinalOffset at beyond
    omega
  by_cases firstSource : first.bookId = source.id
  · by_cases secondSource : second.bookId = source.id
    · rw [move_file_source firstSource, move_file_source secondSource] at same
      simp only [FileRow.slotKey, reparent, shiftOrdinal, Prod.mk.injEq, true_and] at same
      apply List.inj_on_of_nodup_map numbered.keys firstMem secondMem
      simp only [FileRow.slotKey, firstSource, secondSource, same.1, Prod.mk.injEq, true_and]
      omega
    · exact cross firstMem secondMem firstSource secondSource same
  · by_cases secondSource : second.bookId = source.id
    · exact (cross secondMem firstMem secondSource firstSource same.symm).symm
    · rw [move_file_other firstSource, move_file_other secondSource] at same
      exact List.inj_on_of_nodup_map numbered.keys firstMem secondMem same

theorem reached_before {file : FileRow} (member : file ∈ files) (isTarget : file.bookId = target) :
    (reachedFiles (moveBookFiles files source target) target file.format).countP
      (·.ordinal < file.ordinal) = beyondOffset files target file := by
  unfold reachedFiles beyondOffset
  rw [List.countP_filter, move_book_files_eq, List.countP_map]
  apply List.countP_congr
  intro other otherMem
  rw [Function.comp_apply]
  by_cases isSource : other.bookId = source.id
  · have after := moved_beyond numbered member isTarget otherMem isSource
    have notTarget : other.bookId ≠ target := fun isTarget =>
      different (isSource.symm.trans isTarget)
    have notBefore : ¬(moveFile files source target other).ordinal < file.ordinal := by
      unfold ordinalOffset at after
      omega
    simp [notBefore, notTarget]
  · rw [move_file_other isSource]
    simp only [Bool.and_eq_true, decide_eq_true_eq]
    constructor
    · intro ⟨before, ⟨ofTarget, ofFormat⟩, reached⟩
      exact ⟨⟨⟨ofTarget, ofFormat⟩, reached⟩, before⟩
    · intro ⟨⟨⟨ofTarget, ofFormat⟩, reached⟩, before⟩
      exact ⟨before, ⟨ofTarget, ofFormat⟩, reached⟩

theorem moved_max_existing {file : FileRow} (member : file ∈ files)
    (isTarget : file.bookId = target) (format : String) :
    maxExisting (moveBookFiles files source target) target format =
      maxExisting files target format := by
  unfold maxExisting
  congr 1
  rw [move_book_files_eq]
  apply filter_map_eq_self
  · intro other otherMem
    by_cases isSource : other.bookId = source.id
    · have after := moved_beyond numbered member isTarget otherMem isSource
      have notTarget : other.bookId ≠ target := fun isTarget =>
        different (isSource.symm.trans isTarget)
      have reached : ¬(moveFile files source target other).ordinal < ordinalOffset := by
        have positive := numbered.numbered file member
        omega
      simp [reached, notTarget]
    · rw [move_file_other isSource]
  · intro other _ isKept
    apply move_file_other
    intro isSource
    simp only [Bool.and_eq_true, decide_eq_true_eq] at isKept
    exact different (isSource.symm.trans isKept.1.1)

theorem merged_beyond {file : FileRow} (member : file ∈ files) (isTarget : file.bookId = target)
    (beyond : ordinalOffset ≤ file.ordinal) :
    (mergedFile files source target file).ordinal =
        maxExisting files target file.format + 1 + beyondOffset files target file ∧
      (mergedFile files source target file).label = some (file.label.getD source.title) := by
  have notSource : file.bookId ≠ source.id := fun isSource =>
    different (isSource.symm.trans isTarget)
  have ids : ((moveBookFiles files source target).map (·.id)).Nodup := by
    rw [moved_ids_map]
    exact numbered.ids
  have inMoved : file ∈ moveBookFiles files source target := by
    rw [move_book_files_eq]
    exact List.mem_map.mpr ⟨file, member, move_file_other notSource⟩
  have inGroup : file ∈ reachedFiles (moveBookFiles files source target) target file.format :=
    List.mem_filter.mpr ⟨inMoved, by simp [isTarget, sameFormat, beyond]⟩
  have ordinals : ((reachedFiles (moveBookFiles files source target) target file.format).map
      (·.ordinal)).Nodup := by
    apply ordinals_nodup ((moved_keys numbered).sublist (List.filter_sublist.map _)) target
      (nocase file.format)
    intro other otherMem
    have isOne := (List.mem_filter.mp otherMem).2
    simp only [Bool.and_eq_true, decide_eq_true_eq, sameFormat] at isOne
    exact isOne.1
  have index := moved_ids_index ids ordinals inGroup
  unfold mergedFile placeMoved
  rw [move_file_other notSource, if_pos ⟨isTarget, beyond⟩, assign_chunk_some index,
    reached_before numbered different member isTarget,
    moved_max_existing numbered different member isTarget]
  exact ⟨rfl, rfl⟩

omit numbered in
theorem merged_within {file : FileRow} (isTarget : file.bookId = target)
    (within : ¬ordinalOffset ≤ file.ordinal) : mergedFile files source target file = file := by
  have notSource : file.bookId ≠ source.id := fun isSource =>
    different (isSource.symm.trans isTarget)
  unfold mergedFile
  rw [move_file_other notSource, if_neg fun isMoved => within isMoved.2]

end Merged

section Undone

variable {library : Library}

def undoAssignments (library : Library) (source : Book) (target : Int) : List (Int × Int) :=
  assignSequential (fetchFileFormat (migrateBookFiles library.files source target) target)
    (fun _ => 0) (loadFileRows library source.id).movedFileIds

def undoneFile (library : Library) (source : Book) (target restored : Int) (file : FileRow) :
    FileRow :=
  match (undoAssignments library source target).find? (·.1 = file.id) with
  | some assignment =>
      { mergedFile library.files source target file with
        bookId := restored, ordinal := assignment.2, label := none }
  | none => mergedFile library.files source target file

theorem mem_moved_file_ids (id : Int) : id ∈ (loadFileRows library source.id).movedFileIds ↔
    ∃ file ∈ library.files, file.bookId = source.id ∧ file.id = id := by
  change id ∈ List.insertionSort _ _ ↔ _
  simp only [List.mem_insertionSort, List.mem_map, List.mem_filter, decide_eq_true_eq, and_assoc]

theorem moved_file_ids_sorted :
    (loadFileRows library source.id).movedFileIds.Pairwise (· ≤ ·) :=
  List.pairwise_insertionSort _ _

theorem fetch_merged_format (ids : (library.files.map (·.id)).Nodup) {file : FileRow}
    (member : file ∈ library.files) (isSource : file.bookId = source.id) :
    fetchFileFormat (migrateBookFiles library.files source target) target file.id =
      some file.format := by
  have fields := merged_file_fields library.files source target
  unfold fetchFileFormat
  rw [migrate_eq_map ids]
  cases found : (library.files.map (mergedFile library.files source target)).find? fun row =>
      row.bookId = target && row.id = file.id with
  | none =>
      have absent := List.find?_eq_none.mp found _ (List.mem_map_of_mem member)
      rw [(fields file).1, (fields file).2.1, move_file_source isSource] at absent
      simp [reparent] at absent
  | some row =>
      obtain ⟨other, otherMem, rfl⟩ := List.mem_map.mp (List.mem_of_find?_eq_some found)
      have isOne := List.find?_some found
      rw [Bool.and_eq_true, decide_eq_true_eq, decide_eq_true_eq, (fields other).1] at isOne
      rw [Option.map_some, (fields other).2.2,
        List.inj_on_of_nodup_map ids otherMem member isOne.2]

variable (target) in
theorem undo_assignment (ids : (library.files.map (·.id)).Nodup) {file : FileRow}
    (member : file ∈ library.files) (isSource : file.bookId = source.id) :
    ∃ assignment ∈ undoAssignments library source target,
      (undoAssignments library source target).find? (·.1 = file.id) = some assignment ∧
        assignment.1 = file.id := by
  have known : ∀ id ∈ (loadFileRows library source.id).movedFileIds,
      (fetchFileFormat (migrateBookFiles library.files source target) target id).isSome = true := by
    intro id isMoved
    obtain ⟨other, otherMem, otherSource, rfl⟩ := (mem_moved_file_ids id).mp isMoved
    rw [fetch_merged_format ids otherMem otherSource]
    rfl
  have all := assign_sequential_fst _ (fun _ => 0) _ known
  change (undoAssignments library source target).map (·.1) = _ at all
  have isMoved := (mem_moved_file_ids file.id).mpr ⟨file, member, isSource, rfl⟩
  rw [← all] at isMoved
  cases found : (undoAssignments library source target).find? (·.1 = file.id) with
  | none =>
      obtain ⟨assignment, assignmentMem, same⟩ := List.mem_map.mp isMoved
      have absent := List.find?_eq_none.mp found assignment assignmentMem
      exact absurd (decide_eq_true same) absent
  | some assignment =>
      have isOne : assignment.1 = file.id := by simpa using List.find?_some found
      exact ⟨assignment, List.mem_of_find?_eq_some found, rfl, isOne⟩

variable (target) in
theorem no_undo_assignment (ids : (library.files.map (·.id)).Nodup) {file : FileRow}
    (member : file ∈ library.files) (other : file.bookId ≠ source.id) :
    (undoAssignments library source target).find? (·.1 = file.id) = none := by
  rw [List.find?_eq_none]
  intro assignment assignmentMem same
  obtain ⟨moved, movedMem, isSource, sameId⟩ :=
    (mem_moved_file_ids _).mp (assign_sequential_mem assignmentMem)
  rw [of_decide_eq_true same] at sameId
  rw [List.inj_on_of_nodup_map ids movedMem member sameId] at isSource
  exact other isSource

theorem undone_files_by_id (library : Library) (source : Book) (target restored : Int) :
    undoneFiles library source target restored =
      reparentFilesWithOrdinals (migrateBookFiles library.files source target) restored target
        (undoAssignments library source target) := by
  unfold undoneFiles moveFilesBack
  dsimp only
  split_ifs with some
  · rfl
  · -- with no file ids there are no formats either
    rw [not_not] at some
    have noFiles : library.files.filter (·.bookId = source.id) = [] := by
      have empty := (insertion_sort_nil_iff _ _).mp some
      exact List.map_eq_nil_iff.mp empty
    have noFormats : (loadFileRows library source.id).movedFormats = [] := by
      unfold loadFileRows
      dsimp only
      rw [noFiles]
      rfl
    rw [noFormats, undoAssignments, some]
    exact (List.map_id _).symm

theorem undone_eq_map (ids : (library.files.map (·.id)).Nodup) (source : Book)
    (target restored : Int) : undoneFiles library source target restored =
      library.files.map (undoneFile library source target restored) := by
  rw [undone_files_by_id, reparentFilesWithOrdinals, migrate_eq_map ids, List.map_map]
  apply List.map_congr_left
  intro file member
  obtain ⟨sameId, sameBook, _⟩ := merged_file_fields library.files source target file
  rw [Function.comp_apply, undoneFile, ← sameId]
  by_cases isSource : file.bookId = source.id
  · obtain ⟨assignment, _, found, _⟩ := undo_assignment target ids member isSource
    have isTarget : (mergedFile library.files source target file).bookId = target := by
      rw [sameBook, move_file_source isSource]
      rfl
    rw [← sameId] at found
    rw [found]
    exact if_pos isTarget
  · have found := no_undo_assignment target ids member isSource
    rw [← sameId] at found
    rw [found]

theorem undone_id (file : FileRow) :
    (undoneFile library source target restored file).id = file.id := by
  unfold undoneFile
  split <;> exact (merged_file_fields library.files source target file).1

variable (target restored) in
theorem undone_source (ids : (library.files.map (·.id)).Nodup) {file : FileRow}
    (member : file ∈ library.files) (isSource : file.bookId = source.id) :
    (undoneFile library source target restored file).bookId = restored ∧
      (undoneFile library source target restored file).label = none ∧
        ∃ assignment ∈ undoAssignments library source target, assignment.1 = file.id ∧
          (undoneFile library source target restored file).ordinal = assignment.2 := by
  obtain ⟨assignment, assignmentMem, found, isOne⟩ :=
    undo_assignment target ids member isSource
  unfold undoneFile
  rw [found]
  exact ⟨rfl, rfl, assignment, assignmentMem, isOne, rfl⟩

theorem undone_other (ids : (library.files.map (·.id)).Nodup) {file : FileRow}
    (member : file ∈ library.files) (other : file.bookId ≠ source.id) :
    undoneFile library source target restored file = mergedFile library.files source target file := by
  unfold undoneFile
  rw [no_undo_assignment target ids member other]

variable (target restored) in
theorem undone_order (ids : (library.files.map (·.id)).Nodup) {file other : FileRow}
    (member : file ∈ library.files) (isSource : file.bookId = source.id)
    (otherMem : other ∈ library.files) (otherSource : other.bookId = source.id)
    (sameFormat : nocase file.format = nocase other.format) :
    (undoneFile library source target restored file).ordinal <
        (undoneFile library source target restored other).ordinal ↔ file.id < other.id := by
  have ascending {first second : FileRow} (firstMem : first ∈ library.files)
      (firstSource : first.bookId = source.id) (secondMem : second ∈ library.files)
      (secondSource : second.bookId = source.id)
      (sameFormat : nocase first.format = nocase second.format) (before : first.id < second.id) :
      (undoneFile library source target restored first).ordinal <
        (undoneFile library source target restored second).ordinal := by
    obtain ⟨_, _, one, oneMem, oneId, oneOrdinal⟩ :=
      undone_source target restored ids firstMem firstSource
    obtain ⟨_, _, two, twoMem, twoId, twoOrdinal⟩ :=
      undone_source target restored ids secondMem secondSource
    rw [oneOrdinal, twoOrdinal]
    apply assign_sequential_lt moved_file_ids_sorted oneMem twoMem
    · rw [oneId, fetch_merged_format ids firstMem firstSource, Option.map_some]
    · rw [twoId, fetch_merged_format ids secondMem secondSource, Option.map_some, sameFormat]
    · rw [oneId, twoId]
      exact before
  constructor
  · intro before
    rcases lt_trichotomy file.id other.id with less | same | greater
    · exact less
    · rw [List.inj_on_of_nodup_map ids member otherMem same] at before
      exact absurd before (lt_irrefl _)
    · exact absurd before (not_lt.mpr (le_of_lt
        (ascending otherMem otherSource member isSource sameFormat.symm greater)))
  · exact ascending member isSource otherMem otherSource sameFormat

theorem find_undone (ids : (library.files.map (·.id)).Nodup) {file again : FileRow}
    (member : file ∈ library.files)
    (againMem : again ∈ library.files.map (undoneFile library source target restored))
    (same : again.id = file.id) : again = undoneFile library source target restored file := by
  obtain ⟨other, otherMem, rfl⟩ := List.mem_map.mp againMem
  rw [undone_id] at same
  rw [List.inj_on_of_nodup_map ids otherMem member same]

/-- An undo gives the files back exactly when the source's have no labels and lie in the order of
their ids, and the target's beyond the offset have labels and number on. -/
theorem files_returned_iff (library : Library) (source : Book) (target restored : Int)
    (numbered : NumberedFiles library.files) (different : source.id ≠ target)
    (fresh : restored ≠ target) :
    FilesReturned library.files (undoneFiles library source target restored) source target
        restored ↔ Returnable library.files source target := by
  have ids := numbered.ids
  rw [undone_eq_map ids]
  have foreign {file : FileRow} (isTarget : file.bookId = target) : file.bookId ≠ source.id :=
    fun isSource => different (isSource.symm.trans isTarget)
  constructor
  · intro back
    constructor
    · intro file member isSource
      obtain ⟨again, againMem, same, _, label⟩ := back.returned file member isSource
      rw [find_undone ids member againMem same,
        (undone_source target restored ids member isSource).2.1] at label
      exact label.symm
    · intro file member isSource other otherMem otherSource sameFormat
      rw [← undone_order target restored ids member isSource otherMem
        otherSource sameFormat]
      exact back.order file member isSource other otherMem otherSource sameFormat _
        (List.mem_map_of_mem member) (undone_id file) _ (List.mem_map_of_mem otherMem)
          (undone_id other)
    · intro file member isTarget beyond
      obtain ⟨again, againMem, same, _, ordinal, label⟩ := back.kept file member isTarget
      obtain ⟨mergedOrdinal, mergedLabel⟩ := merged_beyond numbered different member isTarget beyond
      rw [find_undone ids member againMem same, undone_other ids member (foreign isTarget)]
        at ordinal label
      rw [mergedLabel] at label
      exact ⟨label ▸ Option.some_ne_none _, ordinal.symm.trans mergedOrdinal⟩
  · intro returnable
    constructor
    · intro file member isTarget
      refine ⟨_, List.mem_map_of_mem member, undone_id file, ?_⟩
      rw [undone_other ids member (foreign isTarget)]
      have sameBook := (merged_file_fields library.files source target file).2.1
      rw [move_file_other (foreign isTarget)] at sameBook
      refine ⟨sameBook.trans isTarget, ?_⟩
      by_cases beyond : ordinalOffset ≤ file.ordinal
      · obtain ⟨ordinal, label⟩ := merged_beyond numbered different member isTarget beyond
        obtain ⟨labelled, continued⟩ := returnable.continued file member isTarget beyond
        obtain ⟨name, isName⟩ := Option.ne_none_iff_exists'.mp labelled
        rw [ordinal, label, isName]
        exact ⟨continued.symm, rfl⟩
      · rw [merged_within different isTarget beyond]
        exact ⟨rfl, rfl⟩
    · intro again againMem isTarget
      obtain ⟨file, member, rfl⟩ := List.mem_map.mp againMem
      by_cases isSource : file.bookId = source.id
      · rw [(undone_source target restored ids member isSource).1] at isTarget
        exact absurd isTarget fresh
      · rw [undone_other ids member isSource,
          (merged_file_fields library.files source target file).2.1, move_file_other isSource]
          at isTarget
        exact ⟨file, member, isTarget, undone_id file⟩
    · intro file member isSource
      obtain ⟨sameBook, label, _⟩ :=
        undone_source target restored ids member isSource
      refine ⟨_, List.mem_map_of_mem member, undone_id file, sameBook, ?_⟩
      rw [label, returnable.unlabelled file member isSource]
    · intro file member isSource other otherMem otherSource sameFormat again againMem same
        otherAgain otherAgainMem otherSame
      rw [find_undone ids member againMem same, find_undone ids otherMem otherAgainMem otherSame,
        undone_order target restored ids member isSource otherMem otherSource sameFormat]
      exact returnable.idOrder file member isSource other otherMem otherSource sameFormat

end Undone

section Example

/-- A book of two parts at the given ordinals, and the EPUB it is merged into. -/
def partsAt (first second : Int) : Library where
  books := [movedBook, ⟨2, "t", "/books", "", "Drakula", some "Drakula.epub"⟩]
  files :=
    [⟨1, 1, "M4B", "Part 1", 10, 10, some "Part 1.m4b", none, none, first, none⟩,
      ⟨2, 1, "M4B", "Part 2", 10, 10, some "Part 2.m4b", none, none, second, none⟩,
      ⟨3, 2, "EPUB", "Drakula", 20, 20, some "Drakula.epub", none, none, 0, none⟩]
  mergedUuids := []

theorem parts_returned : FilesReturned (partsAt 0 1).files
    (undoneFiles (partsAt 0 1) movedBook 2 4) movedBook 2 4 :=
  (files_returned_iff (partsAt 0 1) movedBook 2 4 (by constructor <;> decide) (by decide)
    (by decide)).mpr (by constructor <;> decide)

/-- Parts that were put in another order come back in the order they were found in. -/
theorem parts_order_lost :
    ¬∀ (library : Library) (source : Book) (target restored : Int),
      NumberedFiles library.files → source.id ≠ target → restored ≠ target →
        FilesReturned library.files (undoneFiles library source target restored) source target
          restored := by
  intro claimed
  have ids : ((partsAt 1 0).files.map (·.id)).Nodup := by decide
  have back := claimed (partsAt 1 0) movedBook 2 4 (by constructor <;> decide) (by decide)
    (by decide)
  rw [undone_eq_map ids] at back
  have first : (partsAt 1 0).files[0] ∈ (partsAt 1 0).files := List.getElem_mem _
  have second : (partsAt 1 0).files[1] ∈ (partsAt 1 0).files := List.getElem_mem _
  have order := back.order _ first rfl _ second rfl rfl _ (List.mem_map_of_mem first)
    (undone_id _) _ (List.mem_map_of_mem second) (undone_id _)
  rw [undone_order 2 4 ids first rfl second rfl rfl] at order
  revert order
  decide

end Example

end Omnibus.Scan
