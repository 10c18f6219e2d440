import Omnibus.Scan.GuardRows
import Omnibus.Scan.Merging
import Omnibus.Scan.Unchanged

/-!
# The identity a file is found by

A scan finds a file by the `scan_key` of its book or by a ledger row. The invariant ties the
three tables together; a merge keeps it, and with it the rows a scan reads, when the absorbed
book's own file is guarded and no path of one book is an identity of the other.
-/

namespace Omnibus.Scan

variable {library : Library} {source target : Book} {scanRoots formats : List String}
  {libraryPath : String} {row : IndexedRow}

section Known

/-- The rows of the two projections. -/
inductive KnownRow (library : Library) (libraryPath : String) (formats : List String) :
    IndexedRow → Prop
  | own (book : Book) (file : FileRow) (inBooks : book ∈ library.books)
      (root : book.libraryPath = libraryPath) (inFiles : file ∈ library.files)
      (joined : file.bookId = book.id) (scanned : inFormats file.format formats = true)
      (anchor : sqlEq file.scanKey book.scanKey = true) :
      KnownRow library libraryPath formats (file.indexed book.uuid book.scanKey)
  | fileless (book : Book) (inBooks : book ∈ library.books)
      (root : book.libraryPath = libraryPath) (scanned : formats ≠ [])
      (bare : ∀ file ∈ library.files, file.bookId ≠ book.id) :
      KnownRow library libraryPath formats ⟨book.uuid, book.scanKey.getD "", false, 0, 0⟩
  | merged (entry : MergedUuid) (file : FileRow) (inLedger : entry ∈ library.mergedUuids)
      (root : entry.libraryPath = libraryPath) (inFiles : file ∈ library.files)
      (joined : file.bookId = entry.bookId) (scanned : inFormats entry.format formats = true)
      (anchor : sqlEq file.scanKey entry.scanKey = true) :
      KnownRow library libraryPath formats (file.indexed entry.uuid entry.scanKey)

theorem in_formats_ne_nil {format : String} (scanned : inFormats format formats = true) :
    formats ≠ [] := by
  intro equal
  subst equal
  simp [inFormats] at scanned

theorem mem_indexed_rows_iff (library : Library) (libraryPath : String) (formats : List String)
    (row : IndexedRow) :
    row ∈ indexedRows library libraryPath formats ↔ KnownRow library libraryPath formats row := by
  unfold indexedRows listIndexedRowsForFormats listMergedRowsForFormats
  rw [List.mem_append, List.mem_flatMap, List.mem_flatMap]
  constructor
  · rintro (⟨book, bookMem, rowMem⟩ | ⟨entry, entryMem, rowMem⟩)
    · simp only [List.mem_filter, decide_eq_true_eq] at bookMem
      dsimp only at rowMem
      split_ifs at rowMem with unscanned filed
      · exact absurd rowMem List.not_mem_nil
      · obtain ⟨file, fileMem, rfl⟩ := List.mem_map.mp rowMem
        simp only [List.mem_filter, Bool.and_eq_true, decide_eq_true_eq] at fileMem
        exact .own book file bookMem.1 bookMem.2 fileMem.1 fileMem.2.1.1 fileMem.2.1.2
          fileMem.2.2
      · rw [List.mem_singleton.mp rowMem]
        refine .fileless book bookMem.1 bookMem.2 unscanned fun file fileMem joined => ?_
        exact filed (List.any_eq_true.mpr ⟨file, fileMem, decide_eq_true joined⟩)
    · simp only [List.mem_filter, Bool.and_eq_true, decide_eq_true_eq] at entryMem
      obtain ⟨file, fileMem, rfl⟩ := List.mem_map.mp rowMem
      simp only [List.mem_filter, Bool.and_eq_true, decide_eq_true_eq] at fileMem
      exact .merged entry file entryMem.1 entryMem.2.1 fileMem.1 fileMem.2.1 entryMem.2.2
        fileMem.2.2
  · intro known
    cases known with
    | own book file inBooks root inFiles joined scanned anchor =>
        refine .inl ⟨book, List.mem_filter.mpr ⟨inBooks, decide_eq_true root⟩, ?_⟩
        dsimp only
        rw [if_neg (in_formats_ne_nil scanned), if_pos (List.any_eq_true.mpr
          ⟨file, inFiles, decide_eq_true joined⟩)]
        exact List.mem_map.mpr ⟨file, List.mem_filter.mpr ⟨inFiles, by simp [*]⟩, rfl⟩
    | fileless book inBooks root scanned bare =>
        refine .inl ⟨book, List.mem_filter.mpr ⟨inBooks, decide_eq_true root⟩, ?_⟩
        dsimp only
        rw [if_neg scanned, if_neg]
        · exact List.mem_singleton.mpr rfl
        · intro filed
          obtain ⟨file, inFiles, joined⟩ := List.any_eq_true.mp filed
          exact bare file inFiles (of_decide_eq_true joined)
    | merged entry file inLedger root inFiles joined scanned anchor =>
        refine .inr ⟨entry, List.mem_filter.mpr ⟨inLedger, by simp [*]⟩, ?_⟩
        exact List.mem_map.mpr ⟨file, List.mem_filter.mpr ⟨inFiles, by simp [*]⟩, rfl⟩

end Known

section Conditions

/-- Books as scans leave them: a file is its book's own, or a ledger row of its book has its
format; the own files of a book share one format; and a book under the pseudo-root has no
`scan_key`. -/
structure Indexed (library : Library) : Prop where
  ids : (library.books.map (·.id)).Nodup
  uuids : (library.books.map (·.uuid)).Nodup
  ledgerUuids : ∀ entry ∈ library.mergedUuids, ∀ book ∈ library.books, entry.uuid ≠ book.uuid
  attached : ∀ book ∈ library.books, ∀ file ∈ library.files, file.bookId = book.id →
    sqlEq file.scanKey book.scanKey = false →
      ∃ entry ∈ library.mergedUuids, entry.bookId = book.id ∧
        nocase entry.format = nocase file.format
  ownFormat : ∀ book ∈ library.books, ∀ file ∈ library.files, ∀ other ∈ library.files,
    file.bookId = book.id → other.bookId = book.id → sqlEq file.scanKey book.scanKey = true →
      sqlEq other.scanKey book.scanKey = true → nocase file.format = nocase other.format
  pathed : ∀ file ∈ library.files, file.scanKey ≠ some ""
  physical : ∀ book ∈ library.books, book.libraryPath = physicalLibraryPath →
    book.scanKey.getD "" = ""

/-- The path is one that the book is found by: its own, or that of a ledger row. -/
def IdentifiedBy (library : Library) (book : Book) (scanKey : Option String) : Prop :=
  sqlEq scanKey book.scanKey = true ∨
    ∃ entry ∈ library.mergedUuids, entry.bookId = book.id ∧ sqlEq scanKey entry.scanKey = true

def HasTwin (library : Library) (book : Book) (file : FileRow) : Prop :=
  ∃ twin ∈ library.files, twin.bookId = book.id ∧ twin.scanKey = file.scanKey ∧
    nocase twin.format = nocase file.format ∧ twin.sizeBytes = file.sizeBytes ∧
      twin.mtimeEpoch = file.mtimeEpoch

/-- No file of one book lies where the other is found, unless it cannot be told from a file the
other has there. -/
def KeptApart (library : Library) (book other : Book) : Prop :=
  ∀ file ∈ library.files, file.bookId = book.id → IdentifiedBy library other file.scanKey →
    HasTwin library other file

/-- When a merge leaves every file its identity. -/
structure Guarded (library : Library) (source target : Book) : Prop where
  ownFormat : ∀ file ∈ library.files, file.bookId = source.id →
    sqlEq file.scanKey source.scanKey = true → ∀ entry ∈ library.mergedUuids,
      entry.bookId = source.id → nocase entry.format ≠ nocase file.format
  sourceApart : KeptApart library source target
  targetApart : KeptApart library target source

end Conditions

section MergedTables

structure Follows (source target : Int) (before after : FileRow) : Prop where
  format : after.format = before.format
  sizeBytes : after.sizeBytes = before.sizeBytes
  mtimeEpoch : after.mtimeEpoch = before.mtimeEpoch
  scanKey : after.scanKey = before.scanKey
  bookId : after.bookId = if before.bookId = source then target else before.bookId

theorem follows_of_identity {before after : FileRow} {sourceId targetId : Int}
    (same : after.identity = FileRow.identity
      (if before.bookId = sourceId then { before with bookId := targetId } else before)) :
    Follows sourceId targetId before after := by
  simp only [FileRow.identity, Prod.mk.injEq] at same
  obtain ⟨_, bookId, format, sizeBytes, mtimeEpoch, scanKey⟩ := same
  constructor <;> split_ifs at * <;> assumption

theorem Follows.indexed {before after : FileRow} {sourceId targetId : Int}
    (follows : Follows sourceId targetId before after) (uuid : Uuid) (scanKey : Option String) :
    after.indexed uuid scanKey = before.indexed uuid scanKey := by
  unfold FileRow.indexed
  rw [follows.sizeBytes, follows.mtimeEpoch]

theorem merged_file {after : FileRow}
    (member : after ∈ (mergedLibrary library scanRoots source target).files) :
    ∃ before ∈ library.files, Follows source.id target.id before after := by
  have inMigrated := List.mem_map_of_mem (f := FileRow.identity) (List.mem_filter.mp member).1
  obtain ⟨before, inFiles, same⟩ := (mem_migrated_identity ..).mp inMigrated
  exact ⟨before, inFiles, follows_of_identity same⟩

theorem file_merged (scanRoots : List String) (different : source.id ≠ target.id) {before : FileRow}
    (member : before ∈ library.files) :
    ∃ after ∈ (mergedLibrary library scanRoots source target).files,
      Follows source.id target.id before after := by
  obtain ⟨after, inMigrated, same⟩ := List.mem_map.mp
    ((mem_migrated_identity library.files source target.id _).mpr ⟨before, member, rfl⟩)
  have follows := follows_of_identity same
  refine ⟨after, List.mem_filter.mpr ⟨inMigrated, decide_eq_true ?_⟩, follows⟩
  rw [follows.bookId]
  split
  · exact Ne.symm different
  · assumption

/-- A book of the merged library is one that was there, moved to another root at most. -/
theorem merged_book {after : Book}
    (member : after ∈ (mergedLibrary library scanRoots source target).books) :
    ∃ before ∈ library.books, before.id ≠ source.id ∧ after.id = before.id ∧
      after.uuid = before.uuid ∧ after.scanKey = before.scanKey ∧
      (after = before ∨ before.libraryPath = physicalLibraryPath ∧
        ∃ file ∈ (mergedLibrary library scanRoots source target).files,
          file.bookId = before.id) := by
  obtain ⟨before, kept, rfl⟩ := List.mem_map.mp member
  obtain ⟨inBooks, other⟩ := List.mem_filter.mp kept
  have other := of_decide_eq_true other
  refine ⟨before, inBooks, other, ?_⟩
  split
  · rcases promote_filed scanRoots (migrateBookFiles library.files source target.id) before with
      same | ⟨physical, ⟨file, inFiles, joined⟩, root, moved⟩
    · rw [same]
      exact ⟨rfl, rfl, rfl, .inl rfl⟩
    · rw [moved]
      refine ⟨rfl, rfl, rfl, .inr ⟨physical, file, ?_, joined⟩⟩
      exact List.mem_filter.mpr ⟨inFiles, decide_eq_true (joined ▸ other)⟩
  · exact ⟨rfl, rfl, rfl, .inl rfl⟩

/-- A book other than the absorbed one that has a root of its own stays as it is. -/
theorem book_merged {book : Book} (member : book ∈ library.books) (other : book.id ≠ source.id)
    (filed : book.libraryPath ≠ physicalLibraryPath) :
    book ∈ (mergedLibrary library scanRoots source target).books := by
  refine List.mem_map.mpr ⟨book, List.mem_filter.mpr ⟨member, decide_eq_true other⟩, ?_⟩
  split
  · rcases promote_filed scanRoots (migrateBookFiles library.files source target.id) book with
      same | ⟨physical, _⟩
    · exact same
    · exact absurd physical filed
  · rfl

/-- The guard row of the absorbed book for one format. -/
def guardRow (source : Book) (target : Int) (format : String) : MergedUuid :=
  ⟨source.uuid, target, format, source.libraryPath, source.scanKey⟩

theorem mem_insert_guards_own (ledger : List MergedUuid) (formats : List String)
    (target : Int) (entry : MergedUuid)
    (member : entry ∈ formats.foldl
      (fun ledger format => insertOrReplace ledger (guardRow source target format)) ledger) :
    (∃ format ∈ formats, entry = guardRow source target format) ∨ entry ∈ ledger := by
  induction formats generalizing ledger with
  | nil => exact .inr member
  | cons format rest induction =>
      rcases induction _ member with ⟨later, inRest, rfl⟩ | inserted
      · exact .inl ⟨later, List.mem_cons_of_mem _ inRest, rfl⟩
      · rcases (mem_insert_or_replace _ _).mp inserted with rfl | ⟨kept, _⟩
        · exact .inl ⟨format, List.mem_cons_self, rfl⟩
        · exact .inr kept

theorem guard_inserted (source : Book) (ledger : List MergedUuid) (formats : List String) (target : Int)
    (nonempty : formats ≠ []) : ∃ format ∈ formats, guardRow source target format ∈
      formats.foldl (fun ledger format => insertOrReplace ledger (guardRow source target format))
        ledger := by
  refine ⟨formats.getLast nonempty, List.getLast_mem nonempty, ?_⟩
  conv => enter [1]; rw [← List.dropLast_append_getLast nonempty]
  rw [List.foldl_append, List.foldl_cons, List.foldl_nil, mem_insert_or_replace]
  exact .inl rfl

theorem mem_native_formats_iff (format : String) :
    format ∈ (loadFileRows library source.id).nativeFormats ↔
      (∃ file ∈ library.files, file.bookId = source.id ∧ file.format = format) ∧
        ∀ entry ∈ library.mergedUuids, entry.bookId = source.id →
          nocase entry.format ≠ nocase format := by
  change format ∈ List.filter _ (List.insertionSort _ _) ↔ _
  rw [List.mem_filter, List.mem_insertionSort]
  simp only [List.mem_map, List.mem_filter, decide_eq_true_eq, Bool.not_eq_true',
    List.any_eq_false, List.mem_insertionSort, sameFormat, and_assoc]
  refine and_congr_right fun _ => ⟨fun foreign entry inLedger isSource same => ?_, ?_⟩
  · exact foreign entry.format ⟨entry, inLedger, isSource, rfl⟩ same.symm
  · intro foreign _ ⟨entry, inLedger, isSource, equal⟩ same
    subst equal
    exact foreign entry inLedger isSource same.symm

end MergedTables

end Omnibus.Scan
