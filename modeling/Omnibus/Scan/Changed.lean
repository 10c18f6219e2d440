import Omnibus.Scan.Merging

/-!
# Writing the files whose content changed

The Changed bucket of `sync_books`: a book's own file is rewritten in place by its format, an
attached one in the slot its ledger row names, and a file that finds its slot taken becomes a
book of its own. Backfill writes stats only.
-/

namespace Omnibus.Scan

/-- A re-parsed file, with the ids and the uuid its inserts draw. -/
structure IndexedBook where
  target : ParseTarget
  title : String
  fileId : Int
  bookId : Int
  uuid : Uuid
  deriving DecidableEq, Repr

def scanKeyFor (relativePath : String) : String := relativePath

def parentPath (path : String) : String :=
  String.ofList
    (((path.toList.reverse.dropWhile (· = '/')).dropWhile (· ≠ '/')).dropWhile (· = '/')).reverse

/-- `split_filename`: directory, stem and uppercase extension. -/
def splitFilename (filename : String) : String × String × String :=
  (parentPath filename, pathStem filename, pathFormat filename)

section Rows

def inSlot (bookId : Int) (format : String) (file : FileRow) : Bool :=
  file.bookId = bookId && sameFormat file.format format

/-- The row `insert_book_file_row` writes. -/
def bookFileRow (bookId : Int) (book : IndexedBook) : FileRow :=
  let (_, stem, format) := splitFilename book.target.filename
  { id := book.fileId
    bookId := bookId
    format := format
    filename := stem
    sizeBytes := book.target.sizeBytes
    mtimeEpoch := book.target.mtimeEpoch
    scanKey := some (scanKeyFor book.target.filename)
    libraryPath := none
    path := none
    ordinal := 0
    label := none }

def updateBookRow (books : List Book) (bookId : Int) (book : IndexedBook) : List Book :=
  books.map fun row =>
    if row.id = bookId then
      { row with
        scanKey := some (scanKeyFor book.target.filename)
        path := (splitFilename book.target.filename).1
        title := book.title }
    else row

/-- `rewrite_book_in_place`; the wipe drops the files of the book's format. -/
def rewriteBookInPlace (library : Library) (bookId : Int) (book : IndexedBook) : Library :=
  let format := (splitFilename book.target.filename).2.2
  { library with
    books := updateBookRow library.books bookId book
    files := library.files.filter (!inSlot bookId format ·) ++ [bookFileRow bookId book] }

def insertBookRow (library : Library) (libraryPath : String) (book : IndexedBook) : Library :=
  { library with
    books := library.books ++ [⟨book.bookId, book.uuid, libraryPath,
      (splitFilename book.target.filename).1, book.title,
      some (scanKeyFor book.target.filename)⟩]
    files := library.files ++ [bookFileRow book.bookId book] }

end Rows

section Attachments

/-- A nullable `scan_key` under `scan_key <> ?`. -/
def otherKey (scanKey : Option String) (key : String) : Bool := scanKey.any (· ≠ key)

def slotHeldByOther (library : Library) (bookId : Int) (format scanKey : String) : Bool :=
  (library.mergedUuids.any fun entry => entry.bookId = bookId && sameFormat entry.format format &&
      otherKey entry.scanKey scanKey) ||
    library.files.any fun file => inSlot bookId format file && otherKey file.scanKey scanKey

def findAttachmentByScanKey (ledger : List MergedUuid) (libraryPath scanKey : String) :
    Option MergedUuid :=
  ledger.find? fun entry => entry.libraryPath = libraryPath && entry.scanKey = some scanKey

def forgetAttachment (ledger : List MergedUuid) (libraryPath scanKey : String) :
    List MergedUuid :=
  ledger.filter fun entry => !(entry.libraryPath = libraryPath && entry.scanKey = some scanKey)

def recordAttachment (ledger : List MergedUuid) (uuid : Uuid) (bookId : Int)
    (format libraryPath scanKey : String) : List MergedUuid :=
  let existing := (findAttachmentByScanKey ledger libraryPath scanKey).map (·.uuid)
  insertOrReplace ledger ⟨existing.getD uuid, bookId, format, libraryPath, some scanKey⟩

/-- `attach_ebook_file`; none when another file holds the slot. -/
def attachEbookFile (scanRoots : List String) (library : Library) (bookId : Int)
    (format libraryPath : String) (uuid : Uuid) (book : IndexedBook) : Option Library :=
  let scanKey := scanKeyFor book.target.filename
  if slotHeldByOther library bookId format scanKey then none
  else
    let inserted := library.files.filter (!inSlot bookId format ·) ++ [bookFileRow bookId book]
    let files := inserted.map fun file =>
      if inSlot bookId format file then
        { file with
          libraryPath := some libraryPath
          path := some (splitFilename book.target.filename).1 }
      else file
    some
      { books := library.books.map fun row =>
          if row.id = bookId then promoteFiledPhysicalBook scanRoots files row else row
        files := files
        mergedUuids :=
          recordAttachment library.mergedUuids uuid bookId format libraryPath scanKey }

end Attachments

section Buckets

/-- The ids of the scanned library's books by `scan_key`, read once for the batch. -/
def idMap (books : List Book) (libraryPath scanKey : String) : Option Int :=
  ((books.filter fun book =>
    book.libraryPath = libraryPath && book.scanKey = some scanKey).getLast?).map (·.id)

/-- `sync_changed_one` as far as it keeps the file with its book. -/
def changedInPlace (scanRoots : List String) (libraryPath : String)
    (ids : String → Option Int) (library : Library) (book : IndexedBook) : Option Library :=
  match ids (scanKeyFor book.target.filename) with
  | some bookId => some (rewriteBookInPlace library bookId book)
  | none =>
      (findAttachmentByScanKey library.mergedUuids libraryPath
          (scanKeyFor book.target.filename)).bind fun entry =>
        attachEbookFile scanRoots library entry.bookId entry.format libraryPath entry.uuid book

/-- The fall-through of `sync_changed_one`: the file becomes a new book. -/
def changedToNewBook (libraryPath : String) (library : Library) (book : IndexedBook) :
    Library :=
  let ledger := forgetAttachment library.mergedUuids libraryPath
    (scanKeyFor book.target.filename)
  insertBookRow { library with mergedUuids := ledger } libraryPath book

def syncChangedOne (scanRoots : List String) (libraryPath : String)
    (ids : String → Option Int) (library : Library) (book : IndexedBook) : Library :=
  (changedInPlace scanRoots libraryPath ids library book).getD
    (changedToNewBook libraryPath library book)

def syncChanged (scanRoots : List String) (libraryPath : String) (library : Library)
    (changedBooks : List IndexedBook) : Library :=
  changedBooks.foldl
    (syncChangedOne scanRoots libraryPath (idMap library.books libraryPath)) library

def backfillStatChunks (library : Library) (libraryPath : String)
    (backfill : List (Uuid × Int × Int)) : Library :=
  { library with
    files := backfill.foldl (fun files stat =>
      files.map fun file =>
        if library.books.any fun book =>
            book.uuid = stat.1 && book.libraryPath = libraryPath && file.bookId = book.id then
          { file with mtimeEpoch := stat.2.1, sizeBytes := stat.2.2 }
        else file) library.files }

/-- A scan that finds nothing new, moved or removed: the changed files are parsed again and
written, then the missing stats. -/
def rescan (library : Library) (scanRoots formats : List String) (libraryPath : String)
    (disk : List StatEntry) (trustworthy : Bool) (parse : ParseTarget → String × Int × Int × Uuid) :
    Library :=
  let diff := diffLibrary disk (indexedRows library libraryPath formats) libraryPath trustworthy
  let changed := diff.changed.map fun target =>
    let (title, fileId, bookId, uuid) := parse target
    ⟨target, title, fileId, bookId, uuid⟩
  backfillStatChunks (syncChanged scanRoots libraryPath library changed) libraryPath diff.backfill

end Buckets

end Omnibus.Scan
