import Omnibus.Library.Strings
import Omnibus.Scan.Changed
import Omnibus.Scan.Identities

/-!
# Relocating a moved file

The Moved bucket: the row a uuid names is pointed at the new path, with its `book_files` row and
the parts of an audiobook. A book is refused a path that another book has, an attachment one that
another ledger row has.
-/

open Omnibus.Library

namespace Omnibus.Scan

section Model

/-- A row of `book_file_parts`. -/
structure BookFilePart where
  id : Int
  bookFileId : Int
  filename : String
  deriving DecidableEq, Repr

/-- The tables a relocation writes; a flagged book stands with `missing_files_since`. -/
structure Catalog where
  library : Library
  parts : List BookFilePart
  missingFiles : List (Int × Int)
  deriving DecidableEq, Repr

structure NewLocation where
  scanKey : String
  dir : String
  stem : String
  deriving DecidableEq, Repr

def newLocation (filename : String) : NewLocation :=
  let (dir, stem, _) := splitFilename filename
  ⟨scanKeyFor filename, dir, stem⟩

def anchorRow (books : List Book) (libraryPath : String) (uuid : Uuid) : Option (Int × String) :=
  ((books.find? fun book => book.libraryPath = libraryPath && book.uuid = uuid).map fun book =>
    (book.id, book.scanKey.getD "")).filter (·.2 ≠ "")

def scanKeyTaken (books : List Book) (libraryPath newScanKey : String) (bookId : Int) : Bool :=
  books.any fun book =>
    book.libraryPath = libraryPath && book.scanKey = some newScanKey && book.id ≠ bookId

def findAttachmentByUuid (ledger : List MergedUuid) (libraryPath : String) (uuid : Uuid) :
    Option (Int × String) :=
  ((ledger.find? fun entry => entry.uuid = uuid && entry.libraryPath = libraryPath).map
    fun entry => (entry.bookId, entry.scanKey.getD "")).filter (·.2 ≠ "")

def attachmentScanKeyTaken (ledger : List MergedUuid) (libraryPath scanKey : String)
    (uuid : Uuid) : Bool :=
  ledger.any fun entry =>
    entry.libraryPath = libraryPath && entry.scanKey = some scanKey && entry.uuid ≠ uuid

def relocateAttachment (ledger : List MergedUuid) (uuid : Uuid) (newScanKey : String) :
    List MergedUuid :=
  ledger.map fun entry => if entry.uuid = uuid then { entry with scanKey := newScanKey } else entry

def rebasePart (filename oldGroup newGroup : String) : Option String :=
  (Strings.stripPrefix oldGroup.toList filename.toList).bind fun rest =>
    if rest = [] ∨ rest.head? = some '/' then some (newGroup ++ String.ofList rest) else none

def relocateFileParts (parts : List BookFilePart) (bookFileId : Int) (oldGroup newGroup : String) :
    List BookFilePart :=
  parts.map fun part =>
    if part.bookFileId = bookFileId then
      { part with filename := (rebasePart part.filename oldGroup newGroup).getD part.filename }
    else part

/-- The columns of a relocated file; a `path` that inherits keeps inheriting. -/
def FileRow.movedTo (file : FileRow) (place : NewLocation) (forceOverride : Bool) : FileRow :=
  { file with
    filename := place.stem
    scanKey := some place.scanKey
    path := if forceOverride || file.path.isSome then some place.dir else file.path }

def relocateFileRow (catalog : Catalog) (bookId : Int) (oldScanKey : String) (place : NewLocation)
    (forceOverride : Bool) : Catalog :=
  match catalog.library.files.find? fun file =>
      file.bookId = bookId && file.scanKey = some oldScanKey with
  | none => catalog
  | some row =>
      { catalog with
        library := { catalog.library with
          files := catalog.library.files.map fun file =>
            if file.id = row.id then file.movedTo place forceOverride else file }
        parts := relocateFileParts catalog.parts row.id oldScanKey place.scanKey }

def clearMissingFilesFlag (catalog : Catalog) (bookId : Int) : Catalog :=
  { catalog with missingFiles := catalog.missingFiles.filter (·.1 ≠ bookId) }

/-- `relocate_one`; false when the move was declined. -/
def relocateOne (libraryPath : String) (catalog : Catalog) (move : MovedFile) : Catalog × Bool :=
  let library := catalog.library
  let place := newLocation move.filename
  match anchorRow library.books libraryPath move.uuid with
  | some (bookId, oldScanKey) =>
      if scanKeyTaken library.books libraryPath place.scanKey bookId then (catalog, false)
      else
        let books := library.books.map fun book =>
          if book.id = bookId then { book with scanKey := some place.scanKey, path := place.dir }
          else book
        let moved := relocateFileRow { catalog with library := { library with books := books } }
          bookId oldScanKey place false
        (clearMissingFilesFlag moved bookId, true)
  | none =>
      match findAttachmentByUuid library.mergedUuids libraryPath move.uuid with
      | none => (catalog, false)
      | some (bookId, oldScanKey) =>
          if attachmentScanKeyTaken library.mergedUuids libraryPath place.scanKey move.uuid then
            (catalog, false)
          else
            let ledger := relocateAttachment library.mergedUuids move.uuid place.scanKey
            (relocateFileRow { catalog with library := { library with mergedUuids := ledger } }
              bookId oldScanKey place true, true)

def syncMoved (libraryPath : String) (catalog : Catalog) (moved : List MovedFile) : Catalog :=
  moved.foldl (fun catalog move => (relocateOne libraryPath catalog move).1) catalog

end Model

section Identities

inductive Identity where
  | book (row : Book)
  | attachment (row : MergedUuid)
  deriving DecidableEq, Repr

def Identity.uuid : Identity → Uuid
  | .book row => row.uuid
  | .attachment row => row.uuid

def Identity.libraryPath : Identity → String
  | .book row => row.libraryPath
  | .attachment row => row.libraryPath

def Identity.scanKey : Identity → Option String
  | .book row => row.scanKey
  | .attachment row => row.scanKey

def Identity.bookId : Identity → Int
  | .book row => row.id
  | .attachment row => row.bookId

def Identity.isAttachment : Identity → Bool
  | .book _ => false
  | .attachment _ => true

def Identity.movedTo (place : NewLocation) : Identity → Identity
  | .book row => .book { row with scanKey := some place.scanKey, path := place.dir }
  | .attachment row => .attachment { row with scanKey := some place.scanKey }

def Library.rows (library : Library) : List Identity :=
  library.books.map .book ++ library.mergedUuids.map .attachment

def Library.identities (library : Library) (libraryPath : String) : List Identity :=
  library.rows.filter (·.libraryPath = libraryPath)

structure RowIds (library : Library) : Prop where
  ids : (library.books.map (·.id)).Nodup
  uuids : (library.rows.map (·.uuid)).Nodup
  fileIds : (library.files.map (·.id)).Nodup

structure Keyed (library : Library) : Prop extends RowIds library where
  fileKeys : ((library.files.filter (·.scanKey.isSome)).map fun file =>
    (file.bookId, file.scanKey)).Nodup

@[simp] theorem moved_to_uuid (place : NewLocation) (who : Identity) :
    (who.movedTo place).uuid = who.uuid := by cases who <;> rfl

@[simp] theorem moved_to_library_path (place : NewLocation) (who : Identity) :
    (who.movedTo place).libraryPath = who.libraryPath := by cases who <;> rfl

@[simp] theorem moved_to_scan_key (place : NewLocation) (who : Identity) :
    (who.movedTo place).scanKey = some place.scanKey := by cases who <;> rfl

@[simp] theorem moved_to_is_attachment (place : NewLocation) (who : Identity) :
    (who.movedTo place).isAttachment = who.isAttachment := by cases who <;> rfl

theorem mem_rows_book {library : Library} {row : Book} :
    .book row ∈ library.rows ↔ row ∈ library.books := by
  simp [Library.rows]

theorem mem_rows_attachment {library : Library} {row : MergedUuid} :
    .attachment row ∈ library.rows ↔ row ∈ library.mergedUuids := by
  simp [Library.rows]

theorem mem_identities {library : Library} {libraryPath : String} {who : Identity} :
    who ∈ library.identities libraryPath ↔ who ∈ library.rows ∧ who.libraryPath = libraryPath := by
  simp [Library.identities]

variable {library : Library}

theorem RowIds.same_row (rowIds : RowIds library) {left right : Identity}
    (leftMem : left ∈ library.rows) (rightMem : right ∈ library.rows)
    (same : left.uuid = right.uuid) : left = right :=
  List.inj_on_of_nodup_map rowIds.uuids leftMem rightMem same

theorem RowIds.same_book (rowIds : RowIds library) {left right : Book}
    (leftMem : left ∈ library.books) (rightMem : right ∈ library.books)
    (same : left.id = right.id) : left = right :=
  List.inj_on_of_nodup_map rowIds.ids leftMem rightMem same

theorem Keyed.same_file (keyed : Keyed library) {left right : FileRow}
    (leftMem : left ∈ library.files) (rightMem : right ∈ library.files) (books : left.bookId =
      right.bookId) {key : String} (leftKey : left.scanKey = some key)
    (rightKey : right.scanKey = some key) : left = right :=
  List.inj_on_of_nodup_map keyed.fileKeys
    (List.mem_filter.mpr ⟨leftMem, by rw [leftKey]; rfl⟩)
    (List.mem_filter.mpr ⟨rightMem, by rw [rightKey]; rfl⟩)
    (Prod.ext books (leftKey.trans rightKey.symm))

theorem find_only {Item : Type} {items : List Item} {test : Item → Bool} {item : Item}
    (member : item ∈ items) (passes : test item = true)
    (only : ∀ other ∈ items, test other = true → other = item) : items.find? test = some item := by
  cases found : items.find? test with
  | none => exact absurd passes (List.find?_eq_none.mp found item member)
  | some other => rw [only other (List.mem_of_find?_eq_some found) (List.find?_some found)]

end Identities

section Step

variable {libraryPath : String} {catalog : Catalog} {who : Identity} {old : String}

def Library.moveRow (library : Library) (uuid : Uuid) (place : NewLocation) : Library :=
  { library with
    books := library.books.map fun book =>
      if book.uuid = uuid then { book with scanKey := some place.scanKey, path := place.dir }
      else book
    mergedUuids := relocateAttachment library.mergedUuids uuid place.scanKey }

theorem move_row_rows (library : Library) (uuid : Uuid) (place : NewLocation) :
    (library.moveRow uuid place).rows =
      library.rows.map fun row => if row.uuid = uuid then row.movedTo place else row := by
  unfold Library.rows Library.moveRow relocateAttachment
  simp only [List.map_append, List.map_map]
  congr 1
  · apply List.map_congr_left
    intro book _
    by_cases named : book.uuid = uuid <;> simp [Identity.uuid, Identity.movedTo, named]
  · apply List.map_congr_left
    intro entry _
    by_cases named : entry.uuid = uuid <;> simp [Identity.uuid, Identity.movedTo, named]

def Library.takenFrom (library : Library) (libraryPath : String) (who : Identity)
    (scanKey : String) : Bool :=
  (library.identities libraryPath).any fun other =>
    other.isAttachment = who.isAttachment && other.scanKey = some scanKey && other.uuid ≠ who.uuid

def Catalog.relocated (catalog : Catalog) (who : Identity) (old : String) (place : NewLocation) :
    Catalog :=
  let moved := relocateFileRow { catalog with library := catalog.library.moveRow who.uuid place }
    who.bookId old place who.isAttachment
  if who.isAttachment then moved else clearMissingFilesFlag moved who.bookId

theorem taken_book (rowIds : RowIds catalog.library) {row : Book}
    (member : row ∈ catalog.library.books) (scanKey : String) :
    scanKeyTaken catalog.library.books libraryPath scanKey row.id =
      catalog.library.takenFrom libraryPath (.book row) scanKey := by
  rw [Bool.eq_iff_iff, scanKeyTaken, Library.takenFrom, List.any_eq_true, List.any_eq_true]
  constructor
  · intro ⟨other, otherMem, taken⟩
    simp only [Bool.and_eq_true, decide_eq_true_eq] at taken
    refine ⟨.book other, mem_identities.mpr ⟨mem_rows_book.mpr otherMem, taken.1.1⟩, ?_⟩
    simp only [Bool.and_eq_true, decide_eq_true_eq]
    refine ⟨⟨rfl, taken.1.2⟩, fun same => taken.2 ?_⟩
    have isRow := rowIds.same_row (mem_rows_book.mpr otherMem) (mem_rows_book.mpr member) same
    exact congrArg Book.id (Identity.book.inj isRow)
  · intro ⟨other, otherMem, taken⟩
    simp only [Bool.and_eq_true, decide_eq_true_eq] at taken
    obtain ⟨inRows, root⟩ := mem_identities.mp otherMem
    cases other with
    | attachment entry => exact absurd taken.1.1 (by simp [Identity.isAttachment])
    | book other =>
        have inBooks := mem_rows_book.mp inRows
        refine ⟨other, inBooks, ?_⟩
        simp only [Bool.and_eq_true, decide_eq_true_eq]
        refine ⟨⟨root, taken.1.2⟩, fun same => taken.2 ?_⟩
        rw [rowIds.same_book inBooks member same]

theorem taken_attachment (row : MergedUuid) (scanKey : String) :
    attachmentScanKeyTaken catalog.library.mergedUuids libraryPath scanKey row.uuid =
      catalog.library.takenFrom libraryPath (.attachment row) scanKey := by
  rw [Bool.eq_iff_iff, attachmentScanKeyTaken, Library.takenFrom, List.any_eq_true,
    List.any_eq_true]
  constructor
  · intro ⟨other, otherMem, taken⟩
    simp only [Bool.and_eq_true, decide_eq_true_eq] at taken
    refine ⟨.attachment other, mem_identities.mpr
      ⟨mem_rows_attachment.mpr otherMem, taken.1.1⟩, ?_⟩
    simp only [Bool.and_eq_true, decide_eq_true_eq]
    exact ⟨⟨rfl, taken.1.2⟩, taken.2⟩
  · intro ⟨other, otherMem, taken⟩
    simp only [Bool.and_eq_true, decide_eq_true_eq] at taken
    obtain ⟨inRows, root⟩ := mem_identities.mp otherMem
    cases other with
    | book other => exact absurd taken.1.1 (by simp [Identity.isAttachment])
    | attachment other =>
        refine ⟨other, mem_rows_attachment.mp inRows, ?_⟩
        simp only [Bool.and_eq_true, decide_eq_true_eq]
        exact ⟨⟨root, taken.1.2⟩, taken.2⟩

theorem anchor_row_book (rowIds : RowIds catalog.library) {row : Book}
    (member : row ∈ catalog.library.books) (root : row.libraryPath = libraryPath)
    (isKey : row.scanKey = some old) (named : old ≠ "") :
    anchorRow catalog.library.books libraryPath row.uuid = some (row.id, old) := by
  have found : catalog.library.books.find? (fun book =>
      book.libraryPath = libraryPath && book.uuid = row.uuid) = some row := by
    apply find_only member (by simp [root])
    intro other otherMem passes
    simp only [Bool.and_eq_true, decide_eq_true_eq] at passes
    exact Identity.book.inj
      (rowIds.same_row (mem_rows_book.mpr otherMem) (mem_rows_book.mpr member) passes.2)
  simp [anchorRow, found, isKey, Option.filter, named]

theorem anchor_row_attachment (rowIds : RowIds catalog.library) {row : MergedUuid}
    (member : row ∈ catalog.library.mergedUuids) :
    anchorRow catalog.library.books libraryPath row.uuid = none := by
  have absent : catalog.library.books.find? (fun book =>
      book.libraryPath = libraryPath && book.uuid = row.uuid) = none := by
    rw [List.find?_eq_none]
    intro book bookMem passes
    simp only [Bool.and_eq_true, decide_eq_true_eq] at passes
    have same := rowIds.same_row (mem_rows_book.mpr bookMem) (mem_rows_attachment.mpr member)
      passes.2
    cases same
  simp [anchorRow, absent]

theorem find_attachment_row (rowIds : RowIds catalog.library) {row : MergedUuid}
    (member : row ∈ catalog.library.mergedUuids) (root : row.libraryPath = libraryPath)
    (isKey : row.scanKey = some old) (named : old ≠ "") :
    findAttachmentByUuid catalog.library.mergedUuids libraryPath row.uuid =
      some (row.bookId, old) := by
  have found : catalog.library.mergedUuids.find? (fun entry =>
      entry.uuid = row.uuid && entry.libraryPath = libraryPath) = some row := by
    apply find_only member (by simp [root])
    intro other otherMem passes
    simp only [Bool.and_eq_true, decide_eq_true_eq] at passes
    exact Identity.attachment.inj (rowIds.same_row (mem_rows_attachment.mpr otherMem)
      (mem_rows_attachment.mpr member) passes.1)
  simp [findAttachmentByUuid, found, isKey, Option.filter, named]

theorem relocate_one_cases (rowIds : RowIds catalog.library)
    (member : who ∈ catalog.library.identities libraryPath) (isKey : who.scanKey = some old)
    (named : old ≠ "") (move : MovedFile) (same : move.uuid = who.uuid) :
    relocateOne libraryPath catalog move =
      if catalog.library.takenFrom libraryPath who (newLocation move.filename).scanKey then
        (catalog, false)
      else (catalog.relocated who old (newLocation move.filename), true) := by
  obtain ⟨inRows, root⟩ := mem_identities.mp member
  cases who with
  | book row =>
      have inBooks := mem_rows_book.mp inRows
      unfold relocateOne
      simp only [same, Identity.uuid, anchor_row_book rowIds inBooks root isKey named,
        taken_book rowIds inBooks]
      split
      · rfl
      · have books (book : Book) (bookMem : book ∈ catalog.library.books) :
            book.id = row.id ↔ book.uuid = row.uuid := by
          constructor
          · exact fun sameId => congrArg Book.uuid (rowIds.same_book bookMem inBooks sameId)
          · intro sameUuid
            have isRow := rowIds.same_row (mem_rows_book.mpr bookMem) inRows sameUuid
            exact congrArg Book.id (Identity.book.inj isRow)
        have ledger : relocateAttachment catalog.library.mergedUuids row.uuid
            (newLocation move.filename).scanKey = catalog.library.mergedUuids := by
          unfold relocateAttachment
          refine (List.map_congr_left fun entry entryMem => if_neg fun sameUuid => ?_).trans
            (List.map_id _)
          cases rowIds.same_row (mem_rows_attachment.mpr entryMem) inRows sameUuid
        unfold Catalog.relocated Library.moveRow
        simp only [Identity.uuid, Identity.bookId, Identity.isAttachment, ledger,
          Bool.false_eq_true, if_false]
        rw [List.map_congr_left fun book bookMem =>
          if_congr (books book bookMem) (Eq.refl _) (Eq.refl book)]
        rfl
  | attachment row =>
      have inLedger := mem_rows_attachment.mp inRows
      unfold relocateOne
      simp only [same, Identity.uuid, anchor_row_attachment rowIds inLedger,
        find_attachment_row rowIds inLedger root isKey named, taken_attachment]
      split
      · rfl
      · have isMoved : catalog.library.moveRow row.uuid (newLocation move.filename) =
            { catalog.library with
              mergedUuids := relocateAttachment catalog.library.mergedUuids row.uuid
                (newLocation move.filename).scanKey } := by
          unfold Library.moveRow
          congr 1
          refine (List.map_congr_left fun book bookMem => if_neg fun sameUuid => ?_).trans
            (List.map_id _)
          cases rowIds.same_row (mem_rows_book.mpr bookMem) inRows sameUuid
        unfold Catalog.relocated
        simp only [Identity.uuid, Identity.bookId, Identity.isAttachment, isMoved, if_true]

end Step

section Files

variable {catalog : Catalog} {who : Identity} {old : String} {place : NewLocation}

theorem rebase_part_append (oldGroup newGroup rest : String)
    (inside : rest = "" ∨ rest.toList.head? = some '/') :
    rebasePart (oldGroup ++ rest) oldGroup newGroup = some (newGroup ++ rest) := by
  have stripped : Strings.stripPrefix oldGroup.toList (oldGroup ++ rest).toList =
      some rest.toList := by
    rw [String.toList_append]
    exact Strings.strip_prefix_append ..
  have within : rest.toList = [] ∨ rest.toList.head? = some '/' :=
    inside.imp_left fun empty => by rw [empty]; rfl
  unfold rebasePart
  rw [stripped, Option.bind_some, if_pos within, String.ofList_toList]

/-- A file of another path, and its parts, are as they were; a file that is not is at the
place. -/
structure FilesBut (before after : Catalog) (old : String) (place : NewLocation) : Prop where
  ids : after.library.files.map (·.id) = before.library.files.map (·.id)
  kept : ∀ file ∈ before.library.files, file.scanKey ≠ some old → file ∈ after.library.files ∧
    ∀ part ∈ before.parts, part.bookFileId = file.id → part ∈ after.parts
  drawn : ∀ file ∈ after.library.files, file ∈ before.library.files ∨
    file.scanKey = some place.scanKey

structure FileCarried (before after : Catalog) (file : FileRow) (old : String)
    (place : NewLocation) (forceOverride : Bool) : Prop where
  row : file.movedTo place forceOverride ∈ after.library.files
  parts : ∀ part ∈ before.parts, part.bookFileId = file.id → ∀ rest, part.filename = old ++ rest →
    (rest = "" ∨ rest.toList.head? = some '/') →
      { part with filename := place.scanKey ++ rest } ∈ after.parts

theorem relocate_file_row_rows (catalog : Catalog) (bookId : Int) (old : String)
    (place : NewLocation) (forceOverride : Bool) :
    (relocateFileRow catalog bookId old place forceOverride).library.rows =
      catalog.library.rows := by
  unfold relocateFileRow
  split <;> rfl

theorem relocate_file_row_but (fileIds : (catalog.library.files.map (·.id)).Nodup) (bookId : Int)
    (forceOverride : Bool) :
    FilesBut catalog (relocateFileRow catalog bookId old place forceOverride) old place := by
  unfold relocateFileRow
  cases found : catalog.library.files.find? (fun file =>
      file.bookId = bookId && file.scanKey = some old) with
  | none => exact ⟨rfl, fun file member _ => ⟨member, fun part inParts _ => inParts⟩,
      fun file member => .inl member⟩
  | some row =>
      have rowMem := List.mem_of_find?_eq_some found
      have isRow := List.find?_some found
      simp only [Bool.and_eq_true, decide_eq_true_eq] at isRow
      constructor
      · dsimp only
        rw [List.map_map]
        apply List.map_congr_left
        intro file _
        simp only [Function.comp_apply]
        split_ifs <;> rfl
      · intro file member otherKey
        have other : file.id ≠ row.id := fun same => otherKey (by
          rw [List.inj_on_of_nodup_map fileIds member rowMem same]
          exact isRow.2)
        refine ⟨List.mem_map.mpr ⟨file, member, if_neg other⟩, fun part inParts ofFile => ?_⟩
        refine List.mem_map.mpr ⟨part, inParts, if_neg ?_⟩
        rw [ofFile]
        exact other
      · intro file member
        obtain ⟨before, beforeMem, isAfter⟩ := List.mem_map.mp member
        split_ifs at isAfter with same
        · exact .inr (by rw [← isAfter]; rfl)
        · exact .inl (isAfter ▸ beforeMem)

theorem relocate_file_row_carried {bookId : Int} {forceOverride : Bool} {file : FileRow}
    (member : file ∈ catalog.library.files) (joined : file.bookId = bookId)
    (isKey : file.scanKey = some old)
    (only : ∀ other ∈ catalog.library.files, other.bookId = bookId → other.scanKey = some old →
      other = file) :
    FileCarried catalog (relocateFileRow catalog bookId old place forceOverride) file old place
      forceOverride := by
  have found : catalog.library.files.find? (fun file =>
      file.bookId = bookId && file.scanKey = some old) = some file := by
    apply find_only member (by simp [joined, isKey])
    intro other otherMem passes
    simp only [Bool.and_eq_true, decide_eq_true_eq] at passes
    exact only other otherMem passes.1 passes.2
  unfold relocateFileRow
  rw [found]
  constructor
  · exact List.mem_map.mpr ⟨file, member, if_pos rfl⟩
  · intro part inParts ofFile rest isPath inside
    refine List.mem_map.mpr ⟨part, inParts, ?_⟩
    rw [if_pos ofFile, isPath, rebase_part_append _ _ _ inside, Option.getD_some]

theorem relocated_library (catalog : Catalog) (who : Identity) (old : String)
    (place : NewLocation) : (catalog.relocated who old place).library =
      (relocateFileRow { catalog with library := catalog.library.moveRow who.uuid place } who.bookId
        old place who.isAttachment).library := by
  unfold Catalog.relocated clearMissingFilesFlag
  dsimp only
  split <;> rfl

theorem relocated_parts (catalog : Catalog) (who : Identity) (old : String)
    (place : NewLocation) : (catalog.relocated who old place).parts =
      (relocateFileRow { catalog with library := catalog.library.moveRow who.uuid place } who.bookId
        old place who.isAttachment).parts := by
  unfold Catalog.relocated clearMissingFilesFlag
  dsimp only
  split <;> rfl

theorem relocated_rows (catalog : Catalog) (who : Identity) (old : String)
    (place : NewLocation) : (catalog.relocated who old place).library.rows =
      catalog.library.rows.map fun row =>
        if row.uuid = who.uuid then row.movedTo place else row := by
  rw [relocated_library, relocate_file_row_rows]
  exact move_row_rows ..

theorem relocated_book_ids (catalog : Catalog) (who : Identity) (old : String)
    (place : NewLocation) : (catalog.relocated who old place).library.books.map (·.id) =
      catalog.library.books.map (·.id) := by
  rw [relocated_library]
  have books : (relocateFileRow { catalog with library := catalog.library.moveRow who.uuid place }
      who.bookId old place who.isAttachment).library.books =
        (catalog.library.moveRow who.uuid place).books := by
    unfold relocateFileRow
    split <;> rfl
  rw [books, Library.moveRow, List.map_map]
  apply List.map_congr_left
  intro book _
  simp only [Function.comp_apply]
  split_ifs <;> rfl

theorem relocated_but (fileIds : (catalog.library.files.map (·.id)).Nodup) :
    FilesBut catalog (catalog.relocated who old place) old place := by
  have moveIds : ((({ catalog with library := catalog.library.moveRow who.uuid place } :
    Catalog).library.files).map (·.id)).Nodup := fileIds
  have but : FilesBut { catalog with library := catalog.library.moveRow who.uuid place }
      (relocateFileRow { catalog with library := catalog.library.moveRow who.uuid place }
        who.bookId old place who.isAttachment) old place :=
    relocate_file_row_but moveIds who.bookId who.isAttachment
  obtain ⟨ids, kept, drawn⟩ := but
  constructor
  · rw [relocated_library]
    exact ids
  · rw [relocated_library, relocated_parts]
    exact kept
  · rw [relocated_library]
    exact drawn

theorem relocated_carried {file : FileRow} (member : file ∈ catalog.library.files)
    (joined : file.bookId = who.bookId) (isKey : file.scanKey = some old)
    (only : ∀ other ∈ catalog.library.files, other.bookId = who.bookId →
      other.scanKey = some old → other = file) :
    FileCarried catalog (catalog.relocated who old place) file old place who.isAttachment := by
  have carried : FileCarried { catalog with library := catalog.library.moveRow who.uuid place }
      (relocateFileRow { catalog with library := catalog.library.moveRow who.uuid place }
        who.bookId old place who.isAttachment) file old place who.isAttachment :=
    relocate_file_row_carried member joined isKey only
  constructor
  · rw [relocated_library]
    exact carried.row
  · rw [relocated_parts]
    exact carried.parts

theorem RowIds.relocated (rowIds : RowIds catalog.library) (who : Identity) (old : String)
    (place : NewLocation) : RowIds (catalog.relocated who old place).library := by
  constructor
  · rw [relocated_book_ids]
    exact rowIds.ids
  · have uuids : ((catalog.relocated who old place).library.rows).map (·.uuid) =
        catalog.library.rows.map (·.uuid) := by
      rw [relocated_rows, List.map_map]
      apply List.map_congr_left
      intro row _
      simp only [Function.comp_apply]
      split_ifs <;> simp
    rw [uuids]
    exact rowIds.uuids
  · rw [(relocated_but rowIds.fileIds).ids]
    exact rowIds.fileIds

end Files

end Omnibus.Scan
