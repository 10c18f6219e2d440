import Mathlib.Data.List.Sort
import Mathlib.Data.String.Basic

/-!
# Books, their files and the attach ledger

The columns of `books`, `book_files` and `merged_uuids` that scans and merges find a file by,
and what a merge does to the three: the files move, the ledger is re-pointed with guard rows
for the absorbed book's own files, and the absorbed row goes.
-/

namespace Omnibus.Scan

abbrev Uuid := String

/-- What `COLLATE NOCASE` compares: ASCII letters are folded, nothing else is. -/
def nocase (format : String) : List Char := format.toList.map Char.toUpper

def sameFormat (left right : String) : Bool := nocase left = nocase right

/-- A row of `books`, with the path of its `scan_roots` row. -/
structure Book where
  id : Int
  uuid : Uuid
  libraryPath : String
  path : String
  title : String
  scanKey : Option String
  deriving DecidableEq, Repr

/-- A row of `book_files`. -/
structure FileRow where
  id : Int
  bookId : Int
  format : String
  filename : String
  sizeBytes : Int
  mtimeEpoch : Int
  scanKey : Option String
  libraryPath : Option String
  path : Option String
  ordinal : Int
  label : Option String
  deriving DecidableEq, Repr

/-- A row of `merged_uuids`. -/
structure MergedUuid where
  uuid : Uuid
  bookId : Int
  format : String
  libraryPath : String
  scanKey : Option String
  deriving DecidableEq, Repr

structure Library where
  books : List Book
  files : List FileRow
  mergedUuids : List MergedUuid
  deriving DecidableEq, Repr

section Ledger

/-- `INSERT OR REPLACE`, on the primary key `uuid`. -/
def insertOrReplace (ledger : List MergedUuid) (row : MergedUuid) : List MergedUuid :=
  ledger.filter (·.uuid ≠ row.uuid) ++ [row]

/-- What a merge remembers of the absorbed book's files and attachments. -/
structure FileRows where
  movedFormats : List String
  movedFileIds : List Int
  nativeFormats : List String
  mergedUuidRows : List (Uuid × String × String)
  deriving DecidableEq, Repr

/-- The formats that are not those of attachments recorded in the ledger. -/
def nativeFormats (movedFormats attachedFormats : List String) : List String :=
  movedFormats.filter fun format => !attachedFormats.any (sameFormat format)

def loadFileRows (library : Library) (book : Int) : FileRows :=
  let files := library.files.filter (·.bookId = book)
  let movedFormats := (files.map (·.format)).insertionSort fun left right =>
    nocase left ≤ nocase right
  let rows := (library.mergedUuids.filter (·.bookId = book)).insertionSort (·.uuid ≤ ·.uuid)
  { movedFormats := movedFormats
    movedFileIds := (files.map (·.id)).insertionSort (· ≤ ·)
    nativeFormats := nativeFormats movedFormats (rows.map (·.format))
    mergedUuidRows := rows.map fun row => (row.uuid, row.format, row.libraryPath) }

def rewireMergedUuidRefs (ledger : List MergedUuid) (source : Book) (target : Int)
    (nativeFormats : List String) : List MergedUuid :=
  nativeFormats.foldl (fun ledger format =>
      insertOrReplace ledger ⟨source.uuid, target, format, source.libraryPath, source.scanKey⟩)
    (ledger.map fun row => if row.bookId = source.id then { row with bookId := target } else row)

def restoreAttachLedger (ledger : List MergedUuid) (book : Int) (sourceUuid : Uuid)
    (mergedUuidRows : List (Uuid × String × String)) : List MergedUuid :=
  (mergedUuidRows.foldl (fun ledger row =>
      insertOrReplace ledger ⟨row.1, book, row.2.1, row.2.2, none⟩) ledger).filter
    (·.uuid ≠ sourceUuid)

end Ledger

end Omnibus.Scan
