import Mathlib.Data.List.Basic
import Omnibus.Scan.Merging

/-!
# Moving files one row at a time

The statements of `move_book_files` and `assign_ordinals_after_move` as SQLite runs them: each
visits its rows one by one, in an order of the engine's own, and is refused when a new key is
another row's. Statements that go through leave what `migrateBookFiles` says.
-/

namespace Omnibus.Scan

variable {files final : List FileRow}

section Statements

/-- The key of `UNIQUE(book_id, format, ordinal)`. -/
def FileRow.slotKey (file : FileRow) : Int × List Char × Int :=
  (file.bookId, nocase file.format, file.ordinal)

/-- One row of an UPDATE; none when its new key is another row's. -/
def updateRow (write : FileRow → FileRow) (files : List FileRow) (id : Int) :
    Option (List FileRow) :=
  if files.any fun file => file.id = id && files.any fun other =>
      other.id ≠ id && other.slotKey = (write file).slotKey then none
  else some (files.map fun file => if file.id = id then write file else file)

def updateRows (write : FileRow → FileRow) (files : List FileRow) (ids : List Int) :
    Option (List FileRow) :=
  ids.foldlM (updateRow write) files

/-- The order in which an engine visits the rows of a statement. -/
structure Visit where
  order : List FileRow → List Int → List Int
  visits : ∀ files ids, (order files ids).Perm ids

def writtenOn (write : FileRow → FileRow) (visited : List Int) (file : FileRow) : FileRow :=
  if file.id ∈ visited then write file else file

theorem update_row_written {write : FileRow → FileRow} (keepsId : ∀ file, (write file).id = file.id)
    {visited : List Int} {id : Int} (unvisited : id ∉ visited) :
    (files.map (writtenOn write visited)).map (fun file =>
      if file.id = id then write file else file) = files.map (writtenOn write (visited ++ [id])) := by
  rw [List.map_map]
  apply List.map_congr_left
  intro file _
  rw [Function.comp_apply]
  unfold writtenOn
  by_cases isVisited : file.id ∈ visited
  · have other : file.id ≠ id := fun same => unvisited (same ▸ isVisited)
    rw [if_pos isVisited, keepsId, if_neg other, if_pos (List.mem_append_left _ isVisited)]
  · rw [if_neg isVisited]
    by_cases isRow : file.id = id
    · rw [if_pos isRow, if_pos (by rw [isRow]; exact List.mem_append_right _ List.mem_cons_self)]
    · have absent : file.id ∉ visited ++ [id] := by
        rw [List.mem_append, List.mem_singleton]
        exact not_or.mpr ⟨isVisited, isRow⟩
      rw [if_neg isRow, if_neg absent]

theorem update_rows_result {write : FileRow → FileRow}
    (keepsId : ∀ file, (write file).id = file.id) (visited rest : List Int)
    (distinct : (visited ++ rest).Nodup)
    (ran : updateRows write (files.map (writtenOn write visited)) rest = some final) :
    final = files.map (writtenOn write (visited ++ rest)) := by
  induction rest generalizing visited with
  | nil =>
      rw [List.append_nil]
      exact (Option.some.inj ran).symm
  | cons id rest induction =>
      obtain ⟨next, stepped, later⟩ := Option.bind_eq_some_iff.mp ran
      unfold updateRow at stepped
      split_ifs at stepped
      obtain rfl := Option.some.inj stepped
      have unvisited : id ∉ visited := fun member =>
        (List.nodup_append.mp distinct).2.2 id member id List.mem_cons_self rfl
      rw [update_row_written keepsId unvisited] at later
      rw [List.append_cons visited id rest] at distinct ⊢
      exact induction (visited ++ [id]) distinct later

/-- New keys that are apart from each other and from the old ones are never refused. -/
theorem update_rows_of_apart {write : FileRow → FileRow}
    (keepsId : ∀ file, (write file).id = file.id) (visited rest : List Int)
    (distinct : (visited ++ rest).Nodup)
    (apart : ∀ file ∈ files, file.id ∈ visited ++ rest → ∀ other ∈ files, other.id ≠ file.id →
      other.slotKey ≠ (write file).slotKey ∧
        (other.id ∈ visited ++ rest → (write other).slotKey ≠ (write file).slotKey)) :
    updateRows write (files.map (writtenOn write visited)) rest =
      some (files.map (writtenOn write (visited ++ rest))) := by
  induction rest generalizing visited with
  | nil =>
      rw [List.append_nil]
      rfl
  | cons id rest induction =>
      have unvisited : id ∉ visited := fun member =>
        (List.nodup_append.mp distinct).2.2 id member id List.mem_cons_self rfl
      have free : ¬((files.map (writtenOn write visited)).any fun file => file.id = id &&
          (files.map (writtenOn write visited)).any fun other =>
            other.id ≠ id && other.slotKey = (write file).slotKey) = true := by
        simp only [List.any_map, List.any_eq_true, Function.comp_apply, Bool.and_eq_true,
          decide_eq_true_eq, not_exists, not_and]
        have sameId (file : FileRow) : (writtenOn write visited file).id = file.id := by
          unfold writtenOn
          split
          · exact keepsId file
          · rfl
        intro file fileMem isRow other otherMem isOther
        rw [sameId] at isRow isOther
        have unwritten : writtenOn write visited file = file := by
          unfold writtenOn
          rw [if_neg (isRow ▸ unvisited)]
        rw [unwritten]
        have rowMem : file.id ∈ visited ++ id :: rest := by
          rw [isRow]
          exact List.mem_append_right _ List.mem_cons_self
        have keys := apart file fileMem rowMem other otherMem (isRow ▸ isOther)
        unfold writtenOn
        split
        · rename_i isVisited
          exact keys.2 (List.mem_append_left _ isVisited)
        · exact keys.1
      have stepped : updateRow write (files.map (writtenOn write visited)) id =
          some (files.map (writtenOn write (visited ++ [id]))) := by
        unfold updateRow
        rw [if_neg free, update_row_written keepsId unvisited]
      unfold updateRows at induction ⊢
      rw [List.foldlM_cons, stepped, Option.bind_eq_bind, Option.bind_some]
      rw [List.append_cons visited id rest] at distinct apart ⊢
      exact induction (visited ++ [id]) distinct apart

end Statements

section Statements

/-- The first UPDATE of `move_book_files`. -/
def shiftOrdinal (offset : Int) (file : FileRow) : FileRow :=
  { file with ordinal := file.ordinal + offset }

/-- The second UPDATE of `move_book_files`. -/
def reparent (source : Book) (target : Int) (file : FileRow) : FileRow :=
  { file with
    bookId := target
    libraryPath := some (file.libraryPath.getD source.libraryPath)
    path := some (file.path.getD source.path) }

def moveOffset (files : List FileRow) (target : Int) : Int :=
  maxOrdinal (files.filter (·.bookId = target)) + ordinalOffset

def bookFileIds (files : List FileRow) (book : Int) : List Int :=
  (files.filter (·.bookId = book)).map (·.id)

def moveBookFilesBy (visit : Visit) (files : List FileRow) (source : Book) (target : Int) :
    Option (List FileRow) := do
  let ids := bookFileIds files source.id
  let shifted ← updateRows (shiftOrdinal (moveOffset files target)) files (visit.order files ids)
  updateRows (reparent source target) shifted (visit.order shifted ids)

def ordinalChunk : Nat := 200

def assignChunk (ids : List Int) (base : Int) (sourceTitle : String) (file : FileRow) : FileRow :=
  match ids.findIdx? (· = file.id) with
  | some index =>
      { file with ordinal := base + index, label := some (file.label.getD sourceTitle) }
  | none => file

/-- The chunks of `batch_assign_ordinals`, from `base` on. -/
def batchAssignBy (visit : Visit) (sourceTitle : String) (files : List FileRow)
    (movedIds : List Int) (base : Int) : Option (List FileRow) :=
  if movedIds = [] then some files
  else
    let chunk := movedIds.take ordinalChunk
    (updateRows (assignChunk chunk base sourceTitle) files (visit.order files chunk)).bind
      fun next => batchAssignBy visit sourceTitle next (movedIds.drop ordinalChunk)
        (base + ordinalChunk)
termination_by movedIds.length
decreasing_by
  have nonempty : 0 < movedIds.length := List.length_pos_of_ne_nil ‹_›
  rw [List.length_drop, ordinalChunk]
  omega

def assignOrdinalsBy (visit : Visit) (files : List FileRow) (target : Int)
    (sourceTitle : String) : Option (List FileRow) :=
  (formatsWithMoves files target).foldlM (fun files format =>
    batchAssignBy visit sourceTitle files (movedIds files target format)
      (maxExisting files target format + 1)) files

/-- `migrate_book_files`, statement by statement. -/
def migrateBookFilesBy (visit : Visit) (files : List FileRow) (source : Book) (target : Int) :
    Option (List FileRow) := do
  let moved ← moveBookFilesBy visit files source target
  assignOrdinalsBy visit moved target source.title

end Statements

section Results

variable {visit : Visit} {source : Book} {target : Int}

theorem map_written {write : FileRow → FileRow} {ids : List Int} {selects : FileRow → Prop}
    [DecidablePred selects] (selected : ∀ file ∈ files, file.id ∈ ids ↔ selects file) :
    files.map (writtenOn write ids) = files.map fun file =>
      if selects file then write file else file := by
  apply List.map_congr_left
  intro file member
  unfold writtenOn
  simp only [selected file member]

theorem map_written_nil (write : FileRow → FileRow) (files : List FileRow) :
    files.map (writtenOn write []) = files := by
  conv_rhs => rw [← List.map_id files]
  apply List.map_congr_left
  intro file _
  exact if_neg List.not_mem_nil

theorem statement_result {write : FileRow → FileRow} {ids : List Int}
    {selects : FileRow → Prop} [DecidablePred selects]
    (keepsId : ∀ file, (write file).id = file.id) (distinct : ids.Nodup)
    (selected : ∀ file ∈ files, file.id ∈ ids ↔ selects file)
    (ran : updateRows write files (visit.order files ids) = some final) :
    final = files.map fun file => if selects file then write file else file := by
  have visits := visit.visits files ids
  have result := update_rows_result keepsId [] (visit.order files ids)
    (visits.nodup_iff.mpr distinct) (by rw [map_written_nil]; exact ran)
  rw [result, List.nil_append]
  exact map_written fun file member => visits.mem_iff.trans (selected file member)

theorem statement_runs {write : FileRow → FileRow} {ids : List Int}
    {selects : FileRow → Prop} [DecidablePred selects]
    (keepsId : ∀ file, (write file).id = file.id) (distinct : ids.Nodup)
    (selected : ∀ file ∈ files, file.id ∈ ids ↔ selects file)
    (apart : ∀ file ∈ files, selects file → ∀ other ∈ files, other.id ≠ file.id →
      other.slotKey ≠ (write file).slotKey ∧
        (selects other → (write other).slotKey ≠ (write file).slotKey)) (visit : Visit) :
    updateRows write files (visit.order files ids) =
      some (files.map fun file => if selects file then write file else file) := by
  have visits := visit.visits files ids
  have inOrder (file : FileRow) (member : file ∈ files) :
      file.id ∈ visit.order files ids ↔ selects file :=
    visits.mem_iff.trans (selected file member)
  have ran := update_rows_of_apart keepsId [] (visit.order files ids)
    (visits.nodup_iff.mpr distinct) fun file member isSelected other otherMem isOther => by
      rw [List.nil_append, inOrder file member] at isSelected
      rw [List.nil_append, inOrder other otherMem]
      exact apart file member isSelected other otherMem isOther
  rw [map_written_nil, List.nil_append] at ran
  rw [ran, map_written inOrder]

theorem mem_book_file_ids (distinct : (files.map (·.id)).Nodup) (book : Int) {file : FileRow}
    (member : file ∈ files) : file.id ∈ bookFileIds files book ↔ file.bookId = book := by
  unfold bookFileIds
  rw [List.mem_map]
  constructor
  · intro ⟨other, otherMem, sameId⟩
    obtain ⟨inFiles, isBook⟩ := List.mem_filter.mp otherMem
    rw [← List.inj_on_of_nodup_map distinct inFiles member sameId]
    exact of_decide_eq_true isBook
  · intro isBook
    exact ⟨file, List.mem_filter.mpr ⟨member, decide_eq_true isBook⟩, rfl⟩

theorem book_file_ids_nodup (distinct : (files.map (·.id)).Nodup) (book : Int) :
    (bookFileIds files book).Nodup :=
  distinct.sublist (List.filter_sublist.map _)

def shiftedFiles (files : List FileRow) (source : Book) (target : Int) : List FileRow :=
  files.map fun file =>
    if file.bookId = source.id then shiftOrdinal (moveOffset files target) file else file

theorem shifted_ids (files : List FileRow) (source : Book) (target : Int) :
    (shiftedFiles files source target).map (·.id) = files.map (·.id) := by
  unfold shiftedFiles
  rw [List.map_map]
  apply List.map_congr_left
  intro file _
  rw [Function.comp_apply]
  split <;> rfl

theorem shifted_book_file_ids (files : List FileRow) (source : Book) (target : Int) :
    bookFileIds (shiftedFiles files source target) source.id = bookFileIds files source.id := by
  unfold bookFileIds shiftedFiles
  rw [List.filter_map, List.map_map]
  have sameBook : ((fun file : FileRow => decide (file.bookId = source.id)) ∘ fun file =>
      if file.bookId = source.id then shiftOrdinal (moveOffset files target) file else file) =
      fun file => decide (file.bookId = source.id) := by
    funext file
    rw [Function.comp_apply]
    split <;> rfl
  rw [sameBook]
  apply List.map_congr_left
  intro file _
  rw [Function.comp_apply]
  split <;> rfl

theorem reparent_shifted (files : List FileRow) (source : Book) (target : Int) :
    (shiftedFiles files source target).map (fun file =>
      if file.bookId = source.id then reparent source target file else file) =
      moveBookFiles files source target := by
  unfold shiftedFiles moveBookFiles
  rw [List.map_map]
  apply List.map_congr_left
  intro file _
  rw [Function.comp_apply]
  by_cases isSource : file.bookId = source.id
  · rw [if_pos isSource, if_pos isSource]
    exact if_pos isSource
  · rw [if_neg isSource, if_neg isSource, if_neg isSource]

theorem shift_ordinal_id (offset : Int) (file : FileRow) :
    (shiftOrdinal offset file).id = file.id := rfl

theorem reparent_id (source : Book) (target : Int) (file : FileRow) :
    (reparent source target file).id = file.id := rfl

theorem move_by_result (distinct : (files.map (·.id)).Nodup) {moved : List FileRow}
    (ran : moveBookFilesBy visit files source target = some moved) :
    moved = moveBookFiles files source target := by
  obtain ⟨shifted, first, second⟩ := Option.bind_eq_some_iff.mp ran
  have isShifted := statement_result (shift_ordinal_id _) (book_file_ids_nodup distinct source.id)
    (fun file member => mem_book_file_ids distinct source.id member) first
  change shifted = shiftedFiles files source target at isShifted
  rw [isShifted, ← shifted_book_file_ids files source target] at second
  have distinctShifted : ((shiftedFiles files source target).map (·.id)).Nodup := by
    rw [shifted_ids]
    exact distinct
  rw [← reparent_shifted]
  exact statement_result (reparent_id source target) (book_file_ids_nodup distinctShifted source.id)
    (fun file member => mem_book_file_ids distinctShifted source.id member) second

end Results

section Chunks

variable {visit : Visit} {sourceTitle : String} {base : Int}

theorem assign_chunk_id (ids : List Int) (base : Int) (sourceTitle : String) (file : FileRow) :
    (assignChunk ids base sourceTitle file).id = file.id := by
  unfold assignChunk
  split <;> rfl

theorem assign_chunk_of_not_mem {ids : List Int} {file : FileRow} (absent : file.id ∉ ids) :
    assignChunk ids base sourceTitle file = file := by
  unfold assignChunk
  have none : ids.findIdx? (· = file.id) = none := by
    rw [List.findIdx?_eq_none_iff]
    intro id member
    rw [decide_eq_false_iff_not]
    intro equal
    subst equal
    exact absent member
  rw [none]

theorem mem_of_find_index {ids : List Int} {id : Int} {index : Nat}
    (found : ids.findIdx? (· = id) = some index) : id ∈ ids := by
  obtain ⟨bounded, isOne, _⟩ := List.findIdx?_eq_some_iff_getElem.mp found
  rw [← of_decide_eq_true isOne]
  exact List.getElem_mem bounded

theorem assign_chunk_append {front back : List Int} (distinct : (front ++ back).Nodup)
    (full : back ≠ [] → front.length = ordinalChunk) (file : FileRow) :
    assignChunk back (base + ordinalChunk) sourceTitle
      (assignChunk front base sourceTitle file) =
        assignChunk (front ++ back) base sourceTitle file := by
  cases inFront : front.findIdx? (· = file.id) with
  | some index =>
      have member := mem_of_find_index inFront
      have absent : file.id ∉ back := fun inBack =>
        (List.nodup_append.mp distinct).2.2 _ member _ inBack rfl
      rw [assign_chunk_of_not_mem (by rw [assign_chunk_id]; exact absent)]
      unfold assignChunk
      rw [List.findIdx?_append, inFront]
      rfl
  | none =>
      have unwritten : assignChunk front base sourceTitle file = file := by
        unfold assignChunk
        rw [inFront]
      rw [unwritten]
      unfold assignChunk
      rw [List.findIdx?_append, inFront, Option.none_or]
      cases inBack : back.findIdx? (· = file.id) with
      | none => rfl
      | some index =>
          have nonempty : back ≠ [] := by
            intro equal
            subst equal
            exact absurd (mem_of_find_index inBack) List.not_mem_nil
          simp only [Option.map_some, full nonempty, FileRow.mk.injEq, true_and,
            and_true]
          omega

theorem full_chunk {ids : List Int} (more : ids.drop ordinalChunk ≠ []) :
    (ids.take ordinalChunk).length = ordinalChunk := by
  rw [List.length_take]
  have longer : ordinalChunk < ids.length := by
    by_contra short
    exact more (List.drop_eq_nil_of_le (Nat.le_of_not_lt short))
  exact Nat.min_eq_left (Nat.le_of_lt longer)

theorem chunk_result {ids : List Int} (distinct : ids.Nodup)
    (ran : updateRows (assignChunk ids base sourceTitle) files (visit.order files ids) =
      some final) : final = files.map (assignChunk ids base sourceTitle) := by
  rw [statement_result (assign_chunk_id ids base sourceTitle) distinct (fun _ _ => Iff.rfl) ran]
  apply List.map_congr_left
  intro file _
  split
  · rfl
  · exact (assign_chunk_of_not_mem ‹_›).symm

theorem batch_by_result (movedIds : List Int) (distinct : movedIds.Nodup)
    (ran : batchAssignBy visit sourceTitle files movedIds base = some final) :
    final = files.map (assignChunk movedIds base sourceTitle) := by
  fun_induction batchAssignBy visit sourceTitle files movedIds base with
  | case1 files base =>
      rw [← Option.some.inj ran]
      conv_lhs => rw [← List.map_id files]
      apply List.map_congr_left
      intro file _
      exact (assign_chunk_of_not_mem List.not_mem_nil).symm
  | case2 files movedIds base _ chunk induction =>
      obtain ⟨next, first, later⟩ := Option.bind_eq_some_iff.mp ran
      have split : chunk ++ movedIds.drop ordinalChunk = movedIds := List.take_append_drop _ _
      have distinctSplit := distinct
      rw [← split] at distinctSplit
      have isNext := chunk_result (List.nodup_append.mp distinctSplit).1 first
      rw [induction next (List.nodup_append.mp distinctSplit).2.1 later, isNext, List.map_map]
      apply List.map_congr_left
      intro file _
      rw [Function.comp_apply, assign_chunk_append distinctSplit full_chunk, split]

end Chunks

end Omnibus.Scan
