import Mathlib.Data.List.Dedup
import Mathlib.Data.List.Nodup
import Omnibus.Scan.Diff

/-!
# What a merge does to books, files and the ledger

The absorbed book's files move behind the target's, the target leaves the pseudo-root once a
real file backs it, the ledger is re-pointed and guarded, and the absorbed row goes.
-/

namespace Omnibus.Scan

section Ordinals

def ordinalOffset : Int := 1000

/-- `COALESCE(MAX(ordinal), -1)`. -/
def maxOrdinal (files : List FileRow) : Int :=
  ((files.map (·.ordinal)).max?).getD (-1)

def moveBookFiles (files : List FileRow) (source : Book) (target : Int) : List FileRow :=
  let maxTarget := maxOrdinal (files.filter (·.bookId = target))
  files.map fun file =>
    if file.bookId = source.id then
      { file with
        bookId := target
        ordinal := file.ordinal + (maxTarget + ordinalOffset)
        libraryPath := some (file.libraryPath.getD source.libraryPath)
        path := some (file.path.getD source.path) }
    else file

/-- `batch_assign_ordinals`: the chunks of a batch continue one another's numbering. -/
def batchAssignOrdinals (files : List FileRow) (movedIds : List Int) (maxExisting : Int)
    (sourceTitle : String) : List FileRow :=
  files.map fun file =>
    match movedIds.findIdx? (· = file.id) with
    | some index =>
        { file with
          ordinal := maxExisting + 1 + index
          label := some (file.label.getD sourceTitle) }
    | none => file

/-- The ids of a book's moved files of one format, in their order. -/
def movedIds (files : List FileRow) (target : Int) (format : String) : List Int :=
  ((files.filter fun file => file.bookId = target && sameFormat file.format format &&
      ordinalOffset ≤ file.ordinal).insertionSort fun left right =>
    left.ordinal < right.ordinal ∨ left.ordinal = right.ordinal ∧
      left.filename ≤ right.filename).map (·.id)

/-- The greatest ordinal of a book's own files of a format, `-1` when it has none. -/
def maxExisting (files : List FileRow) (target : Int) (format : String) : Int :=
  maxOrdinal (files.filter fun file =>
    file.bookId = target && sameFormat file.format format && file.ordinal < ordinalOffset)

/-- The loop of `assign_ordinals_after_move` for one format. -/
def assignFormatOrdinals (target : Int) (sourceTitle : String) (files : List FileRow)
    (format : String) : List FileRow :=
  batchAssignOrdinals files (movedIds files target format) (maxExisting files target format)
    sourceTitle

/-- `SELECT DISTINCT format` of a book's moved files. -/
def formatsWithMoves (files : List FileRow) (target : Int) : List String :=
  ((files.filter fun file => file.bookId = target && ordinalOffset ≤ file.ordinal).map
    (·.format)).pwFilter fun left right => !sameFormat left right

def assignOrdinalsAfterMove (files : List FileRow) (target : Int) (sourceTitle : String) :
    List FileRow :=
  (formatsWithMoves files target).foldl (assignFormatOrdinals target sourceTitle) files

def migrateBookFiles (files : List FileRow) (source : Book) (target : Int) : List FileRow :=
  assignOrdinalsAfterMove (moveBookFiles files source target) target source.title

end Ordinals

section Books

/-- `promote_filed_physical_book`: the root of the lowest file under a real root. -/
def promoteFiledPhysicalBook (scanRoots : List String) (files : List FileRow) (book : Book) :
    Book :=
  let filed := files.filter fun file => file.bookId = book.id &&
    file.libraryPath.any fun root => scanRoots.contains root && root ≠ physicalLibraryPath
  let lowest := (filed.insertionSort fun left right =>
    left.ordinal < right.ordinal ∨ left.ordinal = right.ordinal ∧ left.id ≤ right.id).head?
  match lowest.bind (·.libraryPath) with
  | some root =>
      if book.libraryPath = physicalLibraryPath then { book with libraryPath := root } else book
  | none => book

/-- `merge_books` between the two uuids' rows, as far as a scan sees it. -/
def mergedLibrary (library : Library) (scanRoots : List String) (source target : Book) :
    Library :=
  let files := migrateBookFiles library.files source target.id
  let native := (loadFileRows library source.id).nativeFormats
  { books := (library.books.filter (·.id ≠ source.id)).map fun book =>
      if book.id = target.id then promoteFiledPhysicalBook scanRoots files book else book
    files := files.filter (·.bookId ≠ source.id)
    mergedUuids :=
      (rewireMergedUuidRefs library.mergedUuids source target.id native).filter
        (·.bookId ≠ source.id) }

def resolveBook (library : Library) (uuid : Uuid) : Option Book :=
  library.books.find? (·.uuid = uuid)

def mergeBooks (library : Library) (scanRoots : List String) (sourceUuid targetUuid : Uuid) :
    Option Library :=
  if sourceUuid = targetUuid then none
  else do
    let source ← resolveBook library sourceUuid
    let target ← resolveBook library targetUuid
    if source.id = target.id then none
    else some (mergedLibrary library scanRoots source target)

end Books

section Frame

/-- The columns a scan finds a file by, which no renumbering touches. -/
def FileRow.identity (file : FileRow) : Int × Int × String × Int × Int × Option String :=
  (file.id, file.bookId, file.format, file.sizeBytes, file.mtimeEpoch, file.scanKey)

theorem map_identity_batch (files : List FileRow) (movedIds : List Int) (maxExisting : Int)
    (sourceTitle : String) :
    (batchAssignOrdinals files movedIds maxExisting sourceTitle).map FileRow.identity =
      files.map FileRow.identity := by
  unfold batchAssignOrdinals
  rw [List.map_map]
  apply List.map_congr_left
  intro file _
  rw [Function.comp_apply]
  split <;> rfl

theorem map_identity_formats (formats : List String) (files : List FileRow) (target : Int)
    (sourceTitle : String) :
    (formats.foldl (assignFormatOrdinals target sourceTitle) files).map FileRow.identity =
      files.map FileRow.identity := by
  induction formats generalizing files with
  | nil => rfl
  | cons format rest induction =>
      rw [List.foldl_cons, induction]
      exact map_identity_batch ..

/-- A migrated file is a file that was there, at the target if it was at the source. -/
theorem mem_migrated_identity (files : List FileRow) (source : Book) (target : Int)
    (fields : Int × Int × String × Int × Int × Option String) :
    fields ∈ (migrateBookFiles files source target).map FileRow.identity ↔
      ∃ file ∈ files, fields = FileRow.identity
        (if file.bookId = source.id then { file with bookId := target } else file) := by
  unfold migrateBookFiles
  rw [assignOrdinalsAfterMove, map_identity_formats, moveBookFiles, List.map_map, List.mem_map]
  constructor
  · intro ⟨file, member, equal⟩
    subst equal
    refine ⟨file, member, ?_⟩
    rw [Function.comp_apply]
    split <;> rfl
  · intro ⟨file, member, equal⟩
    subst equal
    refine ⟨file, member, ?_⟩
    rw [Function.comp_apply]
    split <;> rfl

theorem promote_filed (scanRoots : List String) (files : List FileRow) (book : Book) :
    promoteFiledPhysicalBook scanRoots files book = book ∨
      book.libraryPath = physicalLibraryPath ∧
        (∃ file ∈ files, file.bookId = book.id) ∧
        ∃ root, promoteFiledPhysicalBook scanRoots files book =
          { book with libraryPath := root } := by
  unfold promoteFiledPhysicalBook
  dsimp only
  split
  · rename_i root found
    split_ifs with physical
    · obtain ⟨file, lowest, _⟩ := Option.bind_eq_some_iff.mp found
      have member := List.mem_of_mem_head? lowest
      rw [List.mem_insertionSort, List.mem_filter, Bool.and_eq_true, decide_eq_true_eq] at member
      exact .inr ⟨physical, ⟨file, member.1, member.2.1⟩, root, rfl⟩
    · exact .inl rfl
  · exact .inl rfl

end Frame

end Omnibus.Scan
