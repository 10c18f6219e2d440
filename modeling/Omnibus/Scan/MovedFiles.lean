import Mathlib.Data.Int.Interval
import Omnibus.Scan.Placed

/-!
# The order of the moved files

A merge numbers the absorbed book's files on from the target's, format by format and in the
order they had, unless a file at ordinal 0 moves to a book with no files: its shifted ordinal
is one short of `ORDINAL_OFFSET`.
-/

namespace Omnibus.Scan

variable {files : List FileRow} {source : Book} {target : Int}

section Statement

/-- Rows of `book_files` under their keys, numbered from 0 and below the offset. -/
structure OrderedFiles (files : List FileRow) : Prop where
  ids : (files.map (·.id)).Nodup
  keys : (files.map FileRow.slotKey).Nodup
  bounded : ∀ file ∈ files, 0 ≤ file.ordinal ∧ file.ordinal < ordinalOffset

def formatFiles (files : List FileRow) (book : Int) (format : String) : List FileRow :=
  files.filter fun file => file.bookId = book && sameFormat file.format format

/-- How many files of its format the file comes after in its book. -/
def rankOf (files : List FileRow) (file : FileRow) : Nat :=
  (formatFiles files file.bookId file.format).countP (·.ordinal < file.ordinal)

/-- Every file of the target stays, and the moved files of each format follow in their order,
labelled. -/
structure PlacedAfter (files final : List FileRow) (source : Book) (target : Int) : Prop where
  kept : ∀ file ∈ files, file.bookId = target → file ∈ final
  moved : ∀ file ∈ files, file.bookId = source.id → ∃ after ∈ final, after.id = file.id ∧
    after.bookId = target ∧ after.format = file.format ∧
      after.ordinal = maxOrdinal (formatFiles files target file.format) + 1 + rankOf files file ∧
        after.label = some (file.label.getD source.title)

/-- Some file tells the offset, or none stands at ordinal 0. -/
def OffsetReached (files : List FileRow) (source : Book) (target : Int) : Prop :=
  (∃ file ∈ files, file.bookId = target) ∨
    ∀ file ∈ files, file.bookId = source.id → file.ordinal ≠ 0

end Statement

section Ranks

theorem ordinal_le_max {file : FileRow} (member : file ∈ files) :
    file.ordinal ≤ maxOrdinal files := by
  unfold maxOrdinal
  cases greatest : (files.map (·.ordinal)).max? with
  | none =>
      have empty := List.map_eq_nil_iff.mp (List.max?_eq_none_iff.mp greatest)
      rw [empty] at member
      exact absurd member List.not_mem_nil
  | some ordinal =>
      exact (List.max?_eq_some_iff.mp greatest).2 _ (List.mem_map_of_mem member)

theorem max_ordinal_cases (files : List FileRow) :
    files = [] ∧ maxOrdinal files = -1 ∨ ∃ file ∈ files, maxOrdinal files = file.ordinal := by
  unfold maxOrdinal
  cases greatest : (files.map (·.ordinal)).max? with
  | none => exact .inl ⟨List.map_eq_nil_iff.mp (List.max?_eq_none_iff.mp greatest), rfl⟩
  | some ordinal =>
      obtain ⟨file, member, isOrdinal⟩ := List.mem_map.mp (List.max?_eq_some_iff.mp greatest).1
      exact .inr ⟨file, member, isOrdinal.symm⟩

theorem find_index_rank (ids : (files.map (·.id)).Nodup) (ordinals : (files.map (·.ordinal)).Nodup)
    (sorted : files.Pairwise fun left right => left.ordinal ≤ right.ordinal) {file : FileRow}
    (member : file ∈ files) : (files.map (·.id)).findIdx? (· = file.id) =
      some (files.countP (·.ordinal < file.ordinal)) := by
  induction files with
  | nil => exact absurd member List.not_mem_nil
  | cons first rest induction =>
      obtain ⟨firstId, restIds⟩ := List.nodup_cons.mp ids
      obtain ⟨firstOrdinal, restOrdinals⟩ := List.nodup_cons.mp ordinals
      obtain ⟨before, restSorted⟩ := List.pairwise_cons.mp sorted
      rw [List.map_cons, List.findIdx?_cons]
      rcases List.mem_cons.mp member with rfl | inRest
      · have none : (file :: rest).countP (·.ordinal < file.ordinal) = 0 := by
          rw [List.countP_eq_zero]
          intro other otherMem
          rw [decide_eq_true_eq, not_lt]
          rcases List.mem_cons.mp otherMem with rfl | later
          · exact le_refl _
          · exact before other later
        rw [none, decide_eq_true rfl]
        rfl
      · have otherId : first.id ≠ file.id := by
          intro same
          apply firstId
          change first.id ∈ _
          rw [same]
          exact List.mem_map_of_mem inRest
        have earlier : first.ordinal < file.ordinal := by
          apply lt_of_le_of_ne (before file inRest)
          intro same
          apply firstOrdinal
          change first.ordinal ∈ _
          rw [same]
          exact List.mem_map_of_mem inRest
        rw [decide_eq_false otherId, induction restIds restOrdinals restSorted inRest,
          List.countP_cons_of_pos (by rw [decide_eq_true_eq]; exact earlier)]
        rfl

theorem ordinals_nodup (keys : (files.map FileRow.slotKey).Nodup) (book : Int)
    (format : List Char)
    (group : ∀ file ∈ files, file.bookId = book ∧ nocase file.format = format) :
    (files.map (·.ordinal)).Nodup := by
  apply List.Nodup.of_map fun ordinal => (book, format, ordinal)
  rw [List.map_map]
  have keyed : files.map ((fun ordinal => (book, format, ordinal)) ∘ FileRow.ordinal) =
      files.map FileRow.slotKey := by
    apply List.map_congr_left
    intro file member
    rw [Function.comp_apply, FileRow.slotKey, (group file member).1, (group file member).2]
  rw [keyed]
  exact keys

def reachedFiles (files : List FileRow) (target : Int) (format : String) : List FileRow :=
  files.filter fun file =>
    file.bookId = target && sameFormat file.format format && ordinalOffset ≤ file.ordinal

theorem moved_ids_index (ids : (files.map (·.id)).Nodup) {format : String}
    (ordinals : ((reachedFiles files target format).map (·.ordinal)).Nodup) {file : FileRow}
    (member : file ∈ reachedFiles files target format) :
    (movedIds files target format).findIdx? (· = file.id) =
      some ((reachedFiles files target format).countP (·.ordinal < file.ordinal)) := by
  have total : Std.Total fun left right : FileRow => left.ordinal < right.ordinal ∨
      left.ordinal = right.ordinal ∧ left.filename ≤ right.filename := by
    constructor
    intro left right
    rcases lt_trichotomy left.ordinal right.ordinal with less | same | greater
    · exact .inl (.inl less)
    · rcases le_total left.filename right.filename with le | ge
      · exact .inl (.inr ⟨same, le⟩)
      · exact .inr (.inr ⟨same.symm, ge⟩)
    · exact .inr (.inl greater)
  have trans : IsTrans FileRow fun left right => left.ordinal < right.ordinal ∨
      left.ordinal = right.ordinal ∧ left.filename ≤ right.filename := by
    constructor
    rintro left middle right (less | ⟨same, le⟩) (less' | ⟨same', le'⟩)
    · exact .inl (less.trans less')
    · exact .inl (same' ▸ less)
    · exact .inl (same ▸ less')
    · exact .inr ⟨same.trans same', le.trans le'⟩
  have perm := List.perm_insertionSort (fun left right : FileRow =>
    left.ordinal < right.ordinal ∨ left.ordinal = right.ordinal ∧ left.filename ≤ right.filename)
      (reachedFiles files target format)
  change (List.map _ (List.insertionSort _ (reachedFiles files target format))).findIdx? _ = _
  rw [find_index_rank _ _ _ (perm.mem_iff.mpr member), perm.countP_eq]
  · rw [(perm.map _).nodup_iff]
    exact ids.sublist (List.filter_sublist.map _)
  · rw [(perm.map _).nodup_iff]
    exact ordinals
  · apply (List.pairwise_insertionSort _ _).imp
    rintro left right (less | ⟨same, _⟩)
    · exact le_of_lt less
    · exact le_of_eq same

theorem count_le_ordinal (ordinals : (files.map (·.ordinal)).Nodup)
    (bounded : ∀ file ∈ files, 0 ≤ file.ordinal) {bound : Int} (positive : 0 ≤ bound) :
    (files.countP (·.ordinal < bound) : Int) ≤ bound := by
  have nodup : ((files.filter (·.ordinal < bound)).map (·.ordinal)).Nodup :=
    ordinals.sublist (List.filter_sublist.map _)
  have within : ((files.filter (·.ordinal < bound)).map (·.ordinal)).toFinset ⊆
      Finset.Ico 0 bound := by
    intro ordinal member
    obtain ⟨file, fileMem, rfl⟩ := List.mem_map.mp (List.mem_toFinset.mp member)
    obtain ⟨inFiles, below⟩ := List.mem_filter.mp fileMem
    exact Finset.mem_Ico.mpr ⟨bounded file inFiles, of_decide_eq_true below⟩
  have bounds := Finset.card_le_card within
  rw [List.toFinset_card_of_nodup nodup, Int.card_Ico, List.length_map,
    ← List.countP_eq_length_filter] at bounds
  omega

end Ranks

section Moved

/-- A file as `move_book_files` leaves it. -/
def moveFile (files : List FileRow) (source : Book) (target : Int) (file : FileRow) : FileRow :=
  if file.bookId = source.id then
    reparent source target (shiftOrdinal (moveOffset files target) file)
  else file

theorem move_book_files_eq (files : List FileRow) (source : Book) (target : Int) :
    moveBookFiles files source target = files.map (moveFile files source target) := rfl

theorem move_file_source {file : FileRow} (isSource : file.bookId = source.id) :
    moveFile files source target file =
      reparent source target (shiftOrdinal (moveOffset files target) file) :=
  if_pos isSource

theorem move_file_other {file : FileRow} (other : file.bookId ≠ source.id) :
    moveFile files source target file = file :=
  if_neg other

theorem move_file_id (files : List FileRow) (source : Book) (target : Int) (file : FileRow) :
    (moveFile files source target file).id = file.id := by
  unfold moveFile
  split <;> rfl

theorem move_file_format (file : FileRow) :
    (moveFile files source target file).format = file.format := by
  unfold moveFile
  split <;> rfl

theorem moved_ids_map (files : List FileRow) (source : Book) (target : Int) :
    (moveBookFiles files source target).map (·.id) = files.map (·.id) := by
  rw [move_book_files_eq, List.map_map]
  apply List.map_congr_left
  intro file _
  exact move_file_id files source target file

variable (ordered : OrderedFiles files) (different : source.id ≠ target)
  (reached : OffsetReached files source target)

include ordered reached in
theorem offset_reached {file : FileRow} (member : file ∈ files)
    (isSource : file.bookId = source.id) :
    ordinalOffset ≤ file.ordinal + moveOffset files target := by
  have lowest := (ordered.bounded file member).1
  unfold moveOffset
  rcases reached with ⟨other, otherMem, isTarget⟩ | noZero
  · have above := (ordered.bounded other otherMem).1
    have below := ordinal_le_max
      (List.mem_filter.mpr ⟨otherMem, decide_eq_true isTarget⟩ :
        other ∈ files.filter (·.bookId = target))
    omega
  · have positive := noZero file member isSource
    rcases max_ordinal_cases (files.filter (·.bookId = target)) with
      ⟨_, isNone⟩ | ⟨other, otherMem, isMax⟩
    · omega
    · have above := (ordered.bounded other (List.mem_filter.mp otherMem).1).1
      omega

include ordered in
theorem format_ordinals_nodup (book : Int) (format : String) :
    ((formatFiles files book format).map (·.ordinal)).Nodup := by
  apply ordinals_nodup (ordered.keys.sublist (List.filter_sublist.map _)) book (nocase format)
  intro file member
  have isOne := (List.mem_filter.mp member).2
  rw [Bool.and_eq_true, decide_eq_true_eq, sameFormat, decide_eq_true_eq] at isOne
  exact isOne

include ordered in
theorem same_ordinal {file other : FileRow} (member : file ∈ files) (otherMem : other ∈ files)
    (sameBook : other.bookId = file.bookId) (sameFormat : nocase other.format = nocase file.format)
    (sameOrdinal : other.ordinal = file.ordinal) : other = file := by
  apply List.inj_on_of_nodup_map ordered.keys otherMem member
  rw [FileRow.slotKey, FileRow.slotKey, sameBook, sameFormat, sameOrdinal]

include ordered different reached

theorem move_by_runs (visit : Visit) :
    moveBookFilesBy visit files source target = some (moveBookFiles files source target) := by
  have first : updateRows (shiftOrdinal (moveOffset files target)) files
      (visit.order files (bookFileIds files source.id)) =
        some (shiftedFiles files source target) := by
    apply statement_runs (shift_ordinal_id _) (book_file_ids_nodup ordered.ids source.id)
      (fun file member => mem_book_file_ids ordered.ids source.id member)
    intro file member isSource other otherMem isOther
    have late := offset_reached ordered reached member isSource
    have early := (ordered.bounded other otherMem).2
    simp only [FileRow.slotKey, shiftOrdinal, ne_eq, Prod.mk.injEq, not_and]
    constructor
    · intro _ _ same
      omega
    · intro _ sameBook sameFormat same
      apply isOther
      rw [same_ordinal ordered member otherMem sameBook sameFormat (by omega)]
  have ids : ((shiftedFiles files source target).map (·.id)).Nodup := by
    rw [shifted_ids]
    exact ordered.ids
  have second : updateRows (reparent source target) (shiftedFiles files source target)
      (visit.order (shiftedFiles files source target)
        (bookFileIds (shiftedFiles files source target) source.id)) =
        some ((shiftedFiles files source target).map fun file =>
          if file.bookId = source.id then reparent source target file else file) := by
    apply statement_runs (reparent_id source target) (book_file_ids_nodup ids source.id)
      (fun file member => mem_book_file_ids ids source.id member)
    intro after afterMem isSource otherAfter otherAfterMem isOther
    obtain ⟨file, member, rfl⟩ := List.mem_map.mp afterMem
    obtain ⟨other, otherMem, rfl⟩ := List.mem_map.mp otherAfterMem
    have fileSource : file.bookId = source.id := by
      split at isSource
      · assumption
      · exact isSource
    rw [if_pos fileSource] at isOther ⊢
    have late := offset_reached ordered reached member fileSource
    have early := (ordered.bounded other otherMem).2
    by_cases otherSource : other.bookId = source.id
    · rw [if_pos otherSource] at isOther ⊢
      simp only [FileRow.slotKey, shiftOrdinal, reparent, ne_eq, Prod.mk.injEq, not_and]
      constructor
      · intro sameBook
        exact absurd (otherSource.symm.trans sameBook) different
      · intro _ _ sameFormat same
        apply isOther
        rw [same_ordinal ordered member otherMem (otherSource.trans fileSource.symm) sameFormat
          (by omega)]
    · rw [if_neg otherSource]
      simp only [FileRow.slotKey, shiftOrdinal, reparent, ne_eq, Prod.mk.injEq, not_and]
      constructor
      · intro _ _ same
        omega
      · intro isSource'
        exact absurd isSource' otherSource
  rw [shifted_book_file_ids, reparent_shifted] at second
  unfold moveBookFilesBy
  dsimp only
  rw [first, Option.bind_eq_bind, Option.bind_some]
  exact second

theorem max_existing_moved (format : String) :
    maxExisting (moveBookFiles files source target) target format =
      maxOrdinal (formatFiles files target format) := by
  unfold maxExisting
  congr 1
  rw [move_book_files_eq]
  have kept : (files.map (moveFile files source target)).filter (fun file =>
      file.bookId = target && sameFormat file.format format && file.ordinal < ordinalOffset) =
      files.filter (fun file =>
        file.bookId = target && sameFormat file.format format && file.ordinal < ordinalOffset) := by
    apply filter_map_eq_self
    · intro file member
      by_cases isSource : file.bookId = source.id
      · have late := offset_reached ordered reached member isSource
        have notTarget : file.bookId ≠ target := fun isTarget =>
          different (isSource.symm.trans isTarget)
        rw [move_file_source isSource]
        simp only [reparent, shiftOrdinal, notTarget, decide_false, Bool.false_and,
          Bool.and_eq_false_iff]
        exact .inr (decide_eq_false (not_lt.mpr late))
      · rw [move_file_other isSource]
    · intro file _ isKept
      apply move_file_other
      intro isSource
      simp only [Bool.and_eq_true, decide_eq_true_eq] at isKept
      exact different (isSource.symm.trans isKept.1.1)
  rw [kept]
  apply List.filter_congr
  intro file member
  rw [decide_eq_true (ordered.bounded file member).2, Bool.and_true]

omit different in
theorem moved_format_files (format : String) :
    reachedFiles (moveBookFiles files source target) target format =
      (formatFiles files source.id format).map (moveFile files source target) := by
  unfold reachedFiles
  rw [move_book_files_eq, List.filter_map]
  congr 1
  apply List.filter_congr
  intro file member
  rw [Function.comp_apply]
  by_cases isSource : file.bookId = source.id
  · have late := offset_reached ordered reached member isSource
    rw [move_file_source isSource]
    simp only [reparent, shiftOrdinal, late, isSource, decide_true, Bool.true_and, Bool.and_true]
  · have early := (ordered.bounded file member).2
    rw [move_file_other isSource]
    simp only [isSource, decide_false, Bool.false_and, Bool.and_eq_false_iff,
      decide_eq_false_iff_not, not_le]
    exact .inr early

omit different in
theorem moved_index {file : FileRow} (member : file ∈ files) (isSource : file.bookId = source.id)
    {format : String} (isFormat : nocase file.format = nocase format) :
    (movedIds (moveBookFiles files source target) target format).findIdx? (· = file.id) =
      some (rankOf files file) := by
  have ids : ((moveBookFiles files source target).map (·.id)).Nodup := by
    rw [moved_ids_map]
    exact ordered.ids
  have ofSource {other : FileRow} (otherMem : other ∈ formatFiles files source.id format) :
      other.bookId = source.id := by
    have isOne := (List.mem_filter.mp otherMem).2
    rw [Bool.and_eq_true, decide_eq_true_eq] at isOne
    exact isOne.1
  have sameOrdinals : ((formatFiles files source.id format).map
      (moveFile files source target)).map (·.ordinal) =
        ((formatFiles files source.id format).map (·.ordinal)).map
          (· + moveOffset files target) := by
    rw [List.map_map, List.map_map]
    apply List.map_congr_left
    intro other otherMem
    rw [Function.comp_apply, move_file_source (ofSource otherMem)]
    rfl
  have ordinals : ((reachedFiles (moveBookFiles files source target) target format).map
      (·.ordinal)).Nodup := by
    rw [moved_format_files ordered reached, sameOrdinals]
    exact (format_ordinals_nodup ordered source.id format).map
      fun first second (same : first + _ = second + _) => by omega
  have inGroup : moveFile files source target file ∈
      reachedFiles (moveBookFiles files source target) target format := by
    rw [moved_format_files ordered reached]
    apply List.mem_map_of_mem
    exact List.mem_filter.mpr ⟨member, by simp [isSource, sameFormat, isFormat]⟩
  rw [← move_file_id files source target file, moved_ids_index ids ordinals inGroup,
    moved_format_files ordered reached, List.countP_map, rankOf, isSource]
  congr 1
  have sameGroup : formatFiles files source.id file.format =
      formatFiles files source.id format := by
    unfold formatFiles sameFormat
    rw [isFormat]
  rw [sameGroup]
  apply List.countP_congr
  intro other otherMem
  rw [Function.comp_apply, move_file_source (ofSource otherMem), move_file_source isSource]
  simp [reparent, shiftOrdinal]

omit reached different in
theorem rank_le_ordinal {file : FileRow} (member : file ∈ files) :
    (rankOf files file : Int) ≤ file.ordinal :=
  count_le_ordinal (format_ordinals_nodup ordered _ _)
    (fun other otherMem => (ordered.bounded other (List.mem_filter.mp otherMem).1).1)
    (ordered.bounded file member).1

omit reached different in
theorem max_format_le (target : Int) (format : String) : maxOrdinal (formatFiles files target format) ≤
    maxOrdinal (files.filter (·.bookId = target)) := by
  rcases max_ordinal_cases (formatFiles files target format) with
    ⟨_, isNone⟩ | ⟨file, member, isMax⟩
  · rcases max_ordinal_cases (files.filter (·.bookId = target)) with
      ⟨_, isNone'⟩ | ⟨other, otherMem, isMax⟩
    · omega
    · have above := (ordered.bounded other (List.mem_filter.mp otherMem).1).1
      omega
  · rw [isMax]
    obtain ⟨inFiles, ofTarget⟩ := List.mem_filter.mp member
    rw [Bool.and_eq_true] at ofTarget
    exact ordinal_le_max (List.mem_filter.mpr ⟨inFiles, ofTarget.1⟩)

theorem moved_waiting (format : String) :
    Waiting (moveBookFiles files source target) target format
      (movedIds (moveBookFiles files source target) target format)
      (maxExisting (moveBookFiles files source target) target format + 1) := by
  have ids : ((moveBookFiles files source target).map (·.id)).Nodup := by
    rw [moved_ids_map]
    exact ordered.ids
  constructor
  · intro after afterMem isTarget isFormat absent
    have early : after.ordinal < ordinalOffset := by
      by_contra late
      exact absent (mem_moved_ids.mpr
        ⟨after, afterMem, ⟨isTarget, not_lt.mp late⟩, isFormat, rfl⟩)
    apply Int.lt_add_one_of_le
    apply ordinal_le_max
    exact List.mem_filter.mpr ⟨afterMem, by simp [isTarget, sameFormat, isFormat, early]⟩
  · intro after afterMem index found
    obtain ⟨other, otherMem, isMoved, isFormat, sameId⟩ :=
      mem_moved_ids.mp (mem_of_find_index found)
    obtain rfl := List.inj_on_of_nodup_map ids otherMem afterMem sameId
    refine ⟨isMoved.1, isFormat, ?_⟩
    rw [move_book_files_eq] at afterMem
    obtain ⟨file, member, rfl⟩ := List.mem_map.mp afterMem
    have isSource : file.bookId = source.id := by
      by_contra notSource
      rw [move_file_other notSource] at isMoved
      have early := (ordered.bounded file member).2
      have late := isMoved.2
      omega
    rw [move_file_format] at isFormat
    rw [move_file_id, moved_index ordered reached member isSource isFormat,
      Option.some.injEq] at found
    rw [max_existing_moved ordered different reached, move_file_source isSource, ← found]
    have rank := rank_le_ordinal ordered member
    have greatest := max_format_le ordered target format
    simp only [reparent, shiftOrdinal, moveOffset, ordinalOffset]
    omega

end Moved

section Loop

variable {sourceTitle : String} {base : Int}

theorem Waiting.placed_for (sourceTitle : String) {format : String} {ids : List Int} {done : List String}
    (waiting : Waiting files target format ids base)
    (later : ∀ other ∈ done, nocase other ≠ nocase format) :
    Waiting (files.map (placedFor files target sourceTitle done)) target format ids base := by
  constructor
  · intro after afterMem isTarget isFormat absent
    obtain ⟨file, member, rfl⟩ := List.mem_map.mp afterMem
    rw [(placed_for_fields files target sourceTitle done file).2.2] at isFormat
    rw [placed_for_other files target sourceTitle later isFormat] at isTarget absent ⊢
    exact waiting.numbered file member isTarget isFormat absent
  · intro after afterMem index found
    obtain ⟨file, member, rfl⟩ := List.mem_map.mp afterMem
    rw [(placed_for_fields files target sourceTitle done file).1] at found
    have held := waiting.waiting file member index found
    rw [placed_for_other files target sourceTitle later held.2.1]
    exact held

theorem assign_by_runs (visit : Visit) (sourceTitle : String)
    (distinct : (files.map (·.id)).Nodup) (done rest : List String)
    (apart : (done ++ rest).Pairwise fun left right => nocase left ≠ nocase right)
    (waiting : ∀ format ∈ rest, Waiting files target format (movedIds files target format)
      (maxExisting files target format + 1)) :
    rest.foldlM (fun files format => batchAssignBy visit sourceTitle files
        (movedIds files target format) (maxExisting files target format + 1))
      (files.map (placedFor files target sourceTitle done)) =
        some (files.map (placedFor files target sourceTitle (done ++ rest))) := by
  induction rest generalizing done with
  | nil =>
      rw [List.append_nil]
      rfl
  | cons format rest induction =>
      have later := formats_later apart
      obtain ⟨now, thereafter⟩ := List.forall_mem_cons.mp waiting
      have batch := batch_by_runs visit sourceTitle _ _ _
        (moved_ids_nodup distinct target format)
        (now.placed_for sourceTitle later)
      rw [place_format target sourceTitle distinct later] at batch
      rw [List.append_cons done format rest] at apart ⊢
      rw [List.foldlM_cons, moved_ids_placed_for later, max_existing_placed_for later, batch,
        Option.bind_eq_bind, Option.bind_some]
      exact induction (done ++ [format]) apart thereafter

theorem assign_by_result {visit : Visit} {final : List FileRow} (formats : List String)
    (distinct : (files.map (·.id)).Nodup)
    (ran : formats.foldlM (fun files format => batchAssignBy visit sourceTitle files
        (movedIds files target format) (maxExisting files target format + 1)) files =
      some final) :
    final = formats.foldl (assignFormatOrdinals target sourceTitle) files := by
  induction formats generalizing files with
  | nil => exact (Option.some.inj ran).symm
  | cons format rest induction =>
      obtain ⟨next, first, later⟩ := Option.bind_eq_some_iff.mp ran
      have isNext := batch_by_result _ (moved_ids_nodup distinct target format) first
      have sameIds : (assignFormatOrdinals target sourceTitle files format).map (·.id) =
          files.map (·.id) := by
        change (files.map (assignChunk (movedIds files target format)
          (maxExisting files target format + 1) sourceTitle)).map (·.id) = _
        rw [List.map_map]
        apply List.map_congr_left
        intro file _
        exact assign_chunk_id _ _ _ file
      rw [isNext] at later
      exact induction (by rw [sameIds]; exact distinct) later

end Loop

section Merge

theorem start_placed_for (files : List FileRow) (target : Int) (sourceTitle : String) :
    files.map (placedFor files target sourceTitle []) = files := by
  conv_rhs => rw [← List.map_id files]
  apply List.map_congr_left
  intro file _
  unfold placedFor
  rw [List.any_nil, if_neg fun both => Bool.false_ne_true both.2]
  rfl

theorem migrate_by_result (ordered : OrderedFiles files) {visit : Visit} {final : List FileRow}
    (ran : migrateBookFilesBy visit files source target = some final) :
    final = migrateBookFiles files source target := by
  obtain ⟨moved, first, later⟩ := Option.bind_eq_some_iff.mp ran
  rw [move_by_result ordered.ids first] at later
  exact assign_by_result _ (by rw [moved_ids_map]; exact ordered.ids) later

theorem migrate_by_runs (ordered : OrderedFiles files) (different : source.id ≠ target)
    (reached : OffsetReached files source target) (visit : Visit) :
    migrateBookFilesBy visit files source target =
      some (migrateBookFiles files source target) := by
  have ids : ((moveBookFiles files source target).map (·.id)).Nodup := by
    rw [moved_ids_map]
    exact ordered.ids
  have looped := assign_by_runs visit source.title ids []
    (formatsWithMoves (moveBookFiles files source target) target)
    (formats_with_moves_apart _ target)
    fun format _ => moved_waiting ordered different reached format
  rw [start_placed_for, List.nil_append] at looped
  unfold migrateBookFilesBy
  rw [move_by_runs ordered different reached visit, Option.bind_eq_bind, Option.bind_some]
  unfold assignOrdinalsBy
  rw [looped]
  have pure := assign_formats target source.title ids []
    (formatsWithMoves (moveBookFiles files source target) target)
    (formats_with_moves_apart _ target)
  rw [start_placed_for, List.nil_append] at pure
  rw [← pure]
  rfl

theorem migrated_eq (ordered : OrderedFiles files) (source : Book) (target : Int) :
    migrateBookFiles files source target = (moveBookFiles files source target).map fun file =>
      if IsMoved target file then
        placeMoved (moveBookFiles files source target) target source.title file
      else file :=
  assign_ordinals_eq (by rw [moved_ids_map]; exact ordered.ids) target source.title

theorem placed_after_migrate (ordered : OrderedFiles files) (different : source.id ≠ target)
    (reached : OffsetReached files source target) :
    PlacedAfter files (migrateBookFiles files source target) source target := by
  rw [migrated_eq ordered, move_book_files_eq, List.map_map]
  constructor
  · intro file member isTarget
    refine List.mem_map.mpr ⟨file, member, ?_⟩
    have other : file.bookId ≠ source.id := fun isSource =>
      different (isSource.symm.trans isTarget)
    rw [Function.comp_apply, move_file_other other, if_neg]
    intro isMoved
    exact absurd isMoved.2 (not_le.mpr (ordered.bounded file member).2)
  · intro file member isSource
    refine ⟨_, List.mem_map_of_mem member, ?_⟩
    have isMoved : IsMoved target (moveFile files source target file) := by
      rw [move_file_source isSource]
      exact ⟨rfl, offset_reached ordered reached member isSource⟩
    have index : (movedIds (moveBookFiles files source target) target
        (moveFile files source target file).format).findIdx?
          (· = (moveFile files source target file).id) = some (rankOf files file) := by
      rw [move_file_id, move_file_format]
      exact moved_index ordered reached member isSource rfl
    rw [Function.comp_apply, if_pos isMoved, placeMoved, ← move_book_files_eq,
      assign_chunk_some index, move_file_format, max_existing_moved ordered different reached]
    dsimp only
    rw [move_file_id, isMoved.1, move_file_source isSource]
    exact ⟨rfl, rfl, rfl, rfl, rfl⟩

/-- A file at ordinal 0 that moves to a book with no files stays one short of the offset. -/
theorem reached_of_placed (ordered : OrderedFiles files)
    (placed : PlacedAfter files (migrateBookFiles files source target) source target) :
    OffsetReached files source target := by
  by_contra missed
  rw [OffsetReached, not_or] at missed
  obtain ⟨bare, someZero⟩ := missed
  push Not at someZero
  obtain ⟨file, member, isSource, isZero⟩ := someZero
  have noTarget : files.filter (·.bookId = target) = [] :=
    List.filter_eq_nil_iff.mpr fun other otherMem isTarget =>
      bare ⟨other, otherMem, of_decide_eq_true isTarget⟩
  have noFormat : formatFiles files target file.format = [] :=
    List.filter_eq_nil_iff.mpr fun other otherMem ofTarget => by
      rw [Bool.and_eq_true, decide_eq_true_eq] at ofTarget
      exact bare ⟨other, otherMem, ofTarget.1⟩
  obtain ⟨after, afterMem, sameId, _, _, isPlaced, _⟩ := placed.moved file member isSource
  have rank := rank_le_ordinal ordered member
  rw [noFormat] at isPlaced
  rw [migrated_eq ordered, move_book_files_eq, List.map_map] at afterMem
  obtain ⟨other, otherMem, rfl⟩ := List.mem_map.mp afterMem
  have notMoved : ¬IsMoved target (moveFile files source target file) := by
    rw [move_file_source isSource]
    intro isMoved
    have late := isMoved.2
    simp only [reparent, shiftOrdinal, moveOffset, noTarget, isZero, maxOrdinal,
      ordinalOffset] at late
    revert late
    decide
  have isOne : other = file := by
    apply List.inj_on_of_nodup_map ordered.ids otherMem member
    rw [← sameId, Function.comp_apply]
    split
    · unfold placeMoved
      rw [assign_chunk_id, move_file_id]
    · rw [move_file_id]
  rw [isOne, Function.comp_apply, if_neg notMoved, move_file_source isSource] at isPlaced
  simp only [reparent, shiftOrdinal, moveOffset, noTarget, isZero, ordinalOffset] at isPlaced
  have bare : maxOrdinal [] = -1 := rfl
  rw [bare] at isPlaced
  omega

/-- A merge goes through and places every file after the target's own exactly when the offset
is reached. -/
theorem placed_after_iff (files : List FileRow) (source : Book) (target : Int)
    (ordered : OrderedFiles files) (different : source.id ≠ target) :
    (∀ visit : Visit, ∃ final, migrateBookFilesBy visit files source target = some final ∧
      PlacedAfter files final source target) ↔ OffsetReached files source target := by
  constructor
  · intro always
    obtain ⟨final, ran, placed⟩ := always ⟨fun _ ids => ids, fun _ _ => .refl _⟩
    rw [migrate_by_result ordered ran] at placed
    exact reached_of_placed ordered placed
  · intro reached visit
    exact ⟨_, migrate_by_runs ordered different reached visit,
      placed_after_migrate ordered different reached⟩

end Merge

section Example

def movedBook : Book := ⟨1, "s", "/books", "", "Dracula", some "Dracula.epub"⟩

/-- An EPUB of the absorbed book, and those of the target at the given ordinals. -/
def besideOrdinals (ordinals : List Int) : List FileRow :=
  ⟨1, 1, "EPUB", "Dracula", 10, 10, some "Dracula.epub", none, none, 0, none⟩ ::
    ordinals.map fun ordinal =>
      ⟨2 + ordinal, 2, "EPUB", "Drakula", 20, 20, some "Drakula.epub", none, none, ordinal, none⟩

theorem beside_ordinals_ordered {ordinals : List Int} (two : ordinals = [] ∨ ordinals = [0]) :
    OrderedFiles (besideOrdinals ordinals) := by
  rcases two with rfl | rfl <;> constructor <;> decide

/-- The engine visits rows in the order of the table. -/
def tableOrder : Visit := ⟨fun _ ids => ids, fun _ _ => .refl _⟩

theorem placed_after_one_file : ∃ final,
    migrateBookFilesBy tableOrder (besideOrdinals [0]) movedBook 2 = some final ∧
      PlacedAfter (besideOrdinals [0]) final movedBook 2 :=
  (placed_after_iff (besideOrdinals [0]) movedBook 2 (beside_ordinals_ordered (.inr rfl))
    (by decide)).mpr (.inl ⟨_, List.mem_cons_of_mem _ List.mem_cons_self, rfl⟩) tableOrder

/-- A file at ordinal 0 that moves to a book with no files ends at ordinal 999. -/
theorem first_file_left_at_offset :
    ¬∀ (files : List FileRow) (source : Book) (target : Int), OrderedFiles files →
      source.id ≠ target → ∀ visit : Visit, ∃ final,
        migrateBookFilesBy visit files source target = some final ∧
          PlacedAfter files final source target := by
  intro claimed
  have ordered := beside_ordinals_ordered (.inl rfl)
  obtain ⟨final, ran, placed⟩ := claimed (besideOrdinals []) movedBook 2 ordered (by decide)
    tableOrder
  rw [migrate_by_result ordered ran] at placed
  rcases reached_of_placed ordered placed with ⟨file, member, isTarget⟩ | noZero
  · rw [List.mem_singleton.mp member] at isTarget
    revert isTarget
    decide
  · exact noZero _ List.mem_cons_self rfl rfl

end Example

end Omnibus.Scan
