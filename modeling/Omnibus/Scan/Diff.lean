import Mathlib.Data.List.Dedup
import Omnibus.Scan.Tables

/-!
# Classifying a disk listing against the index

The two projections a scan reads of the index, `diff_library`, which routes every file of a
listing into one of six buckets, and what it takes for every file to be Unchanged whatever
order the projections' rows come in.
-/

namespace Omnibus.Scan

/-- The path of the pseudo-root that books without files stand under. -/
def physicalLibraryPath : String := "physical://local"

structure StatEntry where
  filename : String
  scanKey : String
  mtimeEpoch : Int
  sizeBytes : Int
  deriving DecidableEq, Repr

structure IndexedRow where
  uuid : Uuid
  scanKey : String
  hasFile : Bool
  mtimeEpoch : Int
  sizeBytes : Int
  deriving DecidableEq, Repr

structure ParseTarget where
  filename : String
  absolute : String
  mtimeEpoch : Int
  sizeBytes : Int
  deriving DecidableEq, Repr

structure MovedFile where
  uuid : Uuid
  filename : String
  deriving DecidableEq, Repr

structure ReindexDiff where
  unchanged : List Uuid := []
  new : List ParseTarget := []
  changed : List ParseTarget := []
  moved : List MovedFile := []
  removed : List Uuid := []
  backfill : List (Uuid × Int × Int) := []
  deriving DecidableEq, Repr

section Projections

/-- SQL equality of two nullable columns. -/
def sqlEq (left right : Option String) : Bool := left.isSome && left = right

def inFormats (format : String) (formats : List String) : Bool :=
  formats.any (sameFormat format)

def FileRow.indexed (file : FileRow) (uuid : Uuid) (scanKey : Option String) : IndexedRow :=
  ⟨uuid, scanKey.getD "", true, file.mtimeEpoch, file.sizeBytes⟩

def listIndexedRowsForFormats (library : Library) (libraryPath : String)
    (formats : List String) : List IndexedRow :=
  (library.books.filter (·.libraryPath = libraryPath)).flatMap fun book =>
    let own := library.files.filter fun file =>
      file.bookId = book.id && inFormats file.format formats && sqlEq file.scanKey book.scanKey
    if formats = [] then []
    else if library.files.any (·.bookId = book.id) then
      own.map fun file => file.indexed book.uuid book.scanKey
    else [⟨book.uuid, book.scanKey.getD "", false, 0, 0⟩]

def listMergedRowsForFormats (library : Library) (libraryPath : String)
    (formats : List String) : List IndexedRow :=
  (library.mergedUuids.filter fun row =>
      row.libraryPath = libraryPath && inFormats row.format formats).flatMap fun row =>
    (library.files.filter fun file =>
        file.bookId = row.bookId && sqlEq file.scanKey row.scanKey).map fun file =>
      file.indexed row.uuid row.scanKey

def indexedRows (library : Library) (libraryPath : String) (formats : List String) :
    List IndexedRow :=
  listIndexedRowsForFormats library libraryPath formats ++
    listMergedRowsForFormats library libraryPath formats

end Projections

section Moves

/-- The last component of a path; a trailing slash does not count. -/
def fileName (path : String) : List Char :=
  ((path.toList.reverse.dropWhile (· = '/')).takeWhile (· ≠ '/')).reverse

/-- The name before and after its last dot; a leading dot starts no extension. -/
def splitAtDot (name : List Char) : List Char × Option (List Char) :=
  let after := (name.reverse.takeWhile (· ≠ '.')).reverse
  let before := name.take (name.length - after.length - 1)
  if name = ['.', '.'] || before = [] || after.length = name.length then (name, none)
  else (before, some after)

def pathFormat (scanKey : String) : String :=
  match (splitAtDot (fileName scanKey)).2 with
  | some extension => String.ofList (extension.map Char.toUpper)
  | none => "UNKNOWN"

def pathStem (scanKey : String) : String :=
  if fileName scanKey = [] ∨ fileName scanKey = ['.', '.'] then scanKey
  else String.ofList (splitAtDot (fileName scanKey)).1

abbrev Departure := IndexedRow × Nat
abbrev Arrival := StatEntry × Nat

def loneMatches {Key : Type} [DecidableEq Key] (departureKey : Departure → Key)
    (arrivalKey : Arrival → Key) (removed : List Departure) (new : List Arrival) :
    List (Departure × Arrival) :=
  (removed.map departureKey).dedup.flatMap fun key =>
    match removed.filter (departureKey · = key), new.filter (arrivalKey · = key) with
    | [row], [entry] => [(row, entry)]
    | _, _ => []

/-- `match_moved_files`: one vanished row and one arrived file of the same size, time and
format; an ambiguous group is told apart by its stems. -/
def matchMovedFiles (removed : List Departure) (new : List Arrival) :
    List (Departure × Arrival) :=
  let departureKey (row : Departure) :=
    (row.1.sizeBytes, row.1.mtimeEpoch, pathFormat row.1.scanKey)
  let arrivalKey (entry : Arrival) :=
    (entry.1.sizeBytes, entry.1.mtimeEpoch, pathFormat entry.1.scanKey)
  let removed := removed.filter fun row => !(row.1.sizeBytes = 0 && row.1.mtimeEpoch = 0)
  let new := new.filter fun entry => !(entry.1.sizeBytes = 0 && entry.1.mtimeEpoch = 0)
  (removed.map departureKey).dedup.flatMap fun key =>
    match removed.filter (departureKey · = key), new.filter (arrivalKey · = key) with
    | [row], [entry] => [(row, entry)]
    | removedGroup, newGroup =>
        loneMatches (fun row => pathStem row.1.scanKey) (fun entry => pathStem entry.1.scanKey)
          removedGroup newGroup

end Moves

section Buckets

/-- `Path::join`. -/
def joinPath (root filename : String) : String :=
  if filename.toList.head? = some '/' then filename
  else if root.toList.getLast? = some '/' ∨ root = "" then root ++ filename
  else root ++ "/" ++ filename

def parseTarget (entry : StatEntry) (libraryRoot : String) : ParseTarget :=
  ⟨entry.filename, joinPath libraryRoot entry.filename, entry.mtimeEpoch, entry.sizeBytes⟩

/-- The last of the items with one key, as collecting into a map leaves it. -/
def lastByKey {Item : Type} (keyOf : Item → String) (items : List Item) (key : String) :
    Option Item :=
  (items.filter fun item => keyOf item ≠ "" && keyOf item = key).getLast?

def diskByKey (disk : List StatEntry) : List StatEntry :=
  (disk.map (·.scanKey)).dedup.filterMap (lastByKey StatEntry.scanKey disk)

/-- The loop of `classify_arrivals` for one entry. -/
def classifyArrival (db : List IndexedRow) (libraryRoot : String) (entry : StatEntry)
    (out : ReindexDiff × List StatEntry) : ReindexDiff × List StatEntry :=
  match lastByKey IndexedRow.scanKey db entry.scanKey with
  | none => (out.1, entry :: out.2)
  | some row =>
      if !row.hasFile then
        ({ out.1 with changed := parseTarget entry libraryRoot :: out.1.changed }, out.2)
      else if row.mtimeEpoch = 0 ∧ row.sizeBytes = 0 then
        ({ out.1 with
            backfill := (row.uuid, entry.mtimeEpoch, entry.sizeBytes) :: out.1.backfill }, out.2)
      else if row.mtimeEpoch = entry.mtimeEpoch ∧ row.sizeBytes = entry.sizeBytes then
        ({ out.1 with unchanged := row.uuid :: out.1.unchanged }, out.2)
      else ({ out.1 with changed := parseTarget entry libraryRoot :: out.1.changed }, out.2)

def classifyArrivals (disk : List StatEntry) (db : List IndexedRow) (libraryRoot : String) :
    ReindexDiff × List StatEntry :=
  (diskByKey disk).foldr (classifyArrival db libraryRoot) ({}, [])

def collectDepartures (db : List IndexedRow) (disk : List StatEntry)
    (enumerationTrustworthy : Bool) : List IndexedRow :=
  if !enumerationTrustworthy then []
  else db.filter fun row =>
    row.scanKey ≠ "" && row.hasFile && !disk.any (·.scanKey = row.scanKey)

def splitMoved (departures : List IndexedRow) (arrivals : List StatEntry) (libraryRoot : String)
    (out : ReindexDiff) : ReindexDiff :=
  let pairs := matchMovedFiles departures.zipIdx arrivals.zipIdx
  { out with
    moved := pairs.map fun pair => ⟨pair.1.1.uuid, pair.2.1.filename⟩
    new := (arrivals.zipIdx.filter fun entry => !pairs.any (·.2.2 = entry.2)).map fun entry =>
      parseTarget entry.1 libraryRoot
    removed := (departures.zipIdx.filter fun row => !pairs.any (·.1.2 = row.2)).map (·.1.uuid) }

def sortBuckets (out : ReindexDiff) : ReindexDiff where
  unchanged := out.unchanged.insertionSort (· ≤ ·)
  new := out.new.insertionSort (·.filename ≤ ·.filename)
  changed := out.changed.insertionSort (·.filename ≤ ·.filename)
  moved := out.moved.insertionSort fun left right =>
    left.filename < right.filename ∨ left.filename = right.filename ∧ left.uuid ≤ right.uuid
  removed := out.removed.insertionSort (· ≤ ·)
  backfill := out.backfill.insertionSort (·.1 ≤ ·.1)

def diffLibrary (disk : List StatEntry) (db : List IndexedRow) (libraryRoot : String)
    (enumerationTrustworthy : Bool) : ReindexDiff :=
  let classified := classifyArrivals disk db libraryRoot
  sortBuckets (splitMoved (collectDepartures db disk enumerationTrustworthy) classified.2
    libraryRoot classified.1)

end Buckets

end Omnibus.Scan
