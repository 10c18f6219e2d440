import Omnibus.Scan.ContentChange
import Omnibus.Scan.Unchanged

/-!
# A scan after content changes

From the listing to the tables: the files whose stat differs are the Changed bucket, nothing is
new, moved or removed, and the scan keeps every file with its book exactly when each changed
file is alone in its slot.
-/

namespace Omnibus.Scan

variable {library : Library} {scanRoots formats : List String} {libraryPath libraryRoot : String}
  {disk : List StatEntry} {db : List IndexedRow}

section Buckets

def IndexedRow.outdated (row : IndexedRow) (entry : StatEntry) : Bool :=
  !row.hasFile || (!(row.mtimeEpoch = 0 ∧ row.sizeBytes = 0) &&
    !(row.mtimeEpoch = entry.mtimeEpoch ∧ row.sizeBytes = entry.sizeBytes))

theorem classified_changed (entries : List StatEntry) (db : List IndexedRow)
    (libraryRoot : String) :
    (entries.foldr (classifyArrival db libraryRoot) ({}, [])).1.changed =
      (entries.filter fun entry =>
        (lastByKey IndexedRow.scanKey db entry.scanKey).any (·.outdated entry)).map
          (parseTarget · libraryRoot) := by
  induction entries with
  | nil => rfl
  | cons entry rest induction =>
      rw [List.foldr_cons, List.filter_cons, classifyArrival]
      split
      · rename_i absent
        rw [absent, Option.any_none, induction]
        rfl
      · rename_i row found
        have decided : row.outdated entry = (!row.hasFile ||
            (!(row.mtimeEpoch = 0 ∧ row.sizeBytes = 0) &&
              !(row.mtimeEpoch = entry.mtimeEpoch ∧ row.sizeBytes = entry.sizeBytes))) := rfl
        rw [found, Option.any_some, decided]
        split_ifs <;> simp_all
        tauto

theorem disk_by_key_nodup (disk : List StatEntry) :
    ((diskByKey disk).map (·.scanKey)).Nodup := by
  have sublist (keys : List String) :
      ((keys.filterMap (lastByKey StatEntry.scanKey disk)).map (·.scanKey)).Sublist keys := by
    induction keys with
    | nil => exact .slnil
    | cons key rest induction =>
        rw [List.filterMap_cons]
        split
        · exact induction.cons key
        · rename_i entry found
          rw [List.map_cons, (last_by_key_some found).2.1]
          exact induction.cons_cons key
  exact (List.nodup_dedup _).sublist (sublist _)

end Buckets

section Paths

/-- No path was added and none removed since the index was written. -/
structure SamePaths (library : Library) (disk : List StatEntry) (libraryPath : String)
    (formats : List String) : Prop where
  relative : ∀ entry ∈ disk, entry.scanKey ≠ "" → scanKeyFor entry.filename = entry.scanKey
  known : ∀ entry ∈ diskByKey disk,
    (lastByKey IndexedRow.scanKey (indexedRows library libraryPath formats) entry.scanKey).any
      (·.hasFile) = true
  present : ∀ row ∈ indexedRows library libraryPath formats, row.scanKey ≠ "" →
    row.hasFile = true → disk.any (·.scanKey = row.scanKey) = true

def StatChanged (library : Library) (libraryPath : String) (formats : List String)
    (entry : StatEntry) : Prop :=
  (lastByKey IndexedRow.scanKey (indexedRows library libraryPath formats) entry.scanKey).any
    (fun row => !(row.mtimeEpoch = 0 ∧ row.sizeBytes = 0) &&
      !(row.mtimeEpoch = entry.mtimeEpoch ∧ row.sizeBytes = entry.sizeBytes)) = true

theorem SamePaths.found (paths : SamePaths library disk libraryPath formats) {entry : StatEntry}
    (member : entry ∈ diskByKey disk) : ∃ row, lastByKey IndexedRow.scanKey
      (indexedRows library libraryPath formats) entry.scanKey = some row ∧ row.hasFile = true := by
  have isKnown := paths.known entry member
  cases found : lastByKey IndexedRow.scanKey (indexedRows library libraryPath formats)
      entry.scanKey with
  | none =>
      rw [found] at isKnown
      exact absurd isKnown Bool.false_ne_true
  | some row =>
      rw [found] at isKnown
      exact ⟨row, rfl, isKnown⟩

end Paths

section Scan

theorem StatChanged.outdated_iff (paths : SamePaths library disk libraryPath formats)
    {entry : StatEntry} (member : entry ∈ diskByKey disk) :
    (lastByKey IndexedRow.scanKey (indexedRows library libraryPath formats) entry.scanKey).any
      (·.outdated entry) = true ↔ StatChanged library libraryPath formats entry := by
  obtain ⟨row, found, hasFile⟩ := paths.found member
  unfold StatChanged IndexedRow.outdated
  rw [found, Option.any_some, Option.any_some, hasFile]
  rfl

theorem changed_filenames_perm (paths : SamePaths library disk libraryPath formats)
    (trustworthy : Bool) :
    ((diffLibrary disk (indexedRows library libraryPath formats) libraryPath
      trustworthy).changed.map (·.filename)).Perm
      (((diskByKey disk).filter fun entry => (lastByKey IndexedRow.scanKey
        (indexedRows library libraryPath formats) entry.scanKey).any (·.outdated entry)).map
          (·.scanKey)) := by
  apply ((List.perm_insertionSort _ _).map _).trans
  change (List.map _ (List.foldr (classifyArrival _ libraryPath) ({}, []) _).1.changed).Perm _
  rw [classified_changed, List.map_map]
  apply List.Perm.of_eq
  apply List.map_congr_left
  intro entry member
  obtain ⟨inDisk, named, _⟩ := mem_disk_by_key (List.mem_filter.mp member).1
  exact paths.relative entry inDisk named

theorem changed_filenames_nodup (paths : SamePaths library disk libraryPath formats)
    (trustworthy : Bool) : ((diffLibrary disk (indexedRows library libraryPath formats) libraryPath
      trustworthy).changed.map (·.filename)).Nodup :=
  (changed_filenames_perm paths trustworthy).nodup_iff.mpr
    ((disk_by_key_nodup disk).sublist (List.filter_sublist.map _))

theorem mem_changed_filenames (paths : SamePaths library disk libraryPath formats)
    (trustworthy : Bool) (filename : String) :
    filename ∈ (diffLibrary disk (indexedRows library libraryPath formats) libraryPath
        trustworthy).changed.map (·.filename) ↔
      ∃ entry ∈ diskByKey disk, StatChanged library libraryPath formats entry ∧
        entry.scanKey = filename := by
  rw [(changed_filenames_perm paths trustworthy).mem_iff, List.mem_map]
  constructor
  · intro ⟨entry, member, equal⟩
    subst equal
    obtain ⟨inDisk, outdated⟩ := List.mem_filter.mp member
    exact ⟨entry, inDisk, (StatChanged.outdated_iff paths inDisk).mp outdated, rfl⟩
  · intro ⟨entry, inDisk, changed, equal⟩
    subst equal
    exact ⟨entry, List.mem_filter.mpr
      ⟨inDisk, (StatChanged.outdated_iff paths inDisk).mpr changed⟩, rfl⟩

/-- A row of the projections that has a file is that of a book's own or an attached file. -/
theorem known_file_of_row {row : IndexedRow} (known : KnownRow library libraryPath formats row)
    (named : row.scanKey ≠ "") (hasFile : row.hasFile = true) :
    KnownFile library libraryPath row.scanKey := by
  have isKey (anchor : Option String) (same : row.scanKey = anchor.getD "") :
      anchor = some row.scanKey := by
    cases anchor with
    | none => exact absurd same named
    | some key => rw [same, Option.getD_some]
  cases known with
  | own book file inBooks root inFiles joined scanned anchor =>
      have bookKey := isKey book.scanKey rfl
      simp only [sqlEq, Bool.and_eq_true, decide_eq_true_eq] at anchor
      refine .inl ⟨book.id, ⟨book, inBooks, root, bookKey, rfl⟩, ?_⟩
      rw [← joined, ← bookKey, ← anchor.2]
      exact List.mem_map_of_mem inFiles
  | fileless book inBooks root scanned bare => exact absurd hasFile Bool.false_ne_true
  | merged entry file inLedger root inFiles joined scanned anchor =>
      have entryKey := isKey entry.scanKey rfl
      simp only [sqlEq, Bool.and_eq_true, decide_eq_true_eq] at anchor
      refine .inr ⟨entry, inLedger, root, entryKey, ?_⟩
      rw [← joined, ← entryKey, ← anchor.2]
      exact List.mem_map_of_mem inFiles

theorem SamePaths.known_file (paths : SamePaths library disk libraryPath formats)
    {entry : StatEntry} (member : entry ∈ diskByKey disk) :
    KnownFile library libraryPath entry.scanKey := by
  obtain ⟨row, found, hasFile⟩ := paths.found member
  obtain ⟨inRows, same, named⟩ := last_by_key_some found
  rw [← same] at named ⊢
  exact known_file_of_row ((mem_indexed_rows_iff ..).mp inRows) named hasFile

theorem backfill_owned (library : Library) (libraryPath : String)
    (backfill : List (Uuid × Int × Int)) :
    (backfillStatChunks library libraryPath backfill).owned = library.owned := by
  unfold backfillStatChunks Library.owned
  dsimp only
  generalize library.files = files
  induction backfill generalizing files with
  | nil => rfl
  | cons stat rest induction =>
      rw [List.foldl_cons, induction, List.map_map]
      apply List.map_congr_left
      intro file _
      rw [Function.comp_apply]
      split <;> rfl

/-- A scan that finds only changed contents keeps every file with its book exactly when each
changed file is alone in its slot. -/
theorem files_kept_iff (library : Library) (scanRoots formats : List String)
    (libraryPath : String) (disk : List StatEntry) (trustworthy : Bool)
    (parse : ParseTarget → String × Int × Int × Uuid) (one : OneIdentity library)
    (paths : SamePaths library disk libraryPath formats) :
    FilesKept library (rescan library scanRoots formats libraryPath disk trustworthy parse) ↔
      ∀ entry ∈ diskByKey disk, StatChanged library libraryPath formats entry →
        Alone library libraryPath entry.scanKey := by
  have backfilled (next : Library) (backfill : List (Uuid × Int × Int)) :
      FilesKept library (backfillStatChunks next libraryPath backfill) ↔
        FilesKept library next := by
    constructor
    · intro ⟨books, files⟩
      rw [backfill_owned] at files
      exact ⟨books, files⟩
    · intro ⟨books, files⟩
      refine ⟨books, ?_⟩
      rw [backfill_owned]
      exact files
  unfold rescan
  dsimp only
  rw [backfilled]
  have sameNames (targets : List ParseTarget) : (targets.map fun target =>
      (⟨target, (parse target).1, (parse target).2.1, (parse target).2.2.1,
        (parse target).2.2.2⟩ : IndexedBook)).map (·.target.filename) =
        targets.map (·.filename) := by
    rw [List.map_map]
    rfl
  constructor
  · intro kept entry member changed
    apply alone_of_files_kept one _ _ _ kept
    · rw [sameNames, mem_changed_filenames paths]
      exact ⟨entry, member, changed, rfl⟩
    · rw [sameNames]
      exact changed_filenames_nodup paths trustworthy
    · intro book inBatch
      have isChanged := List.mem_map_of_mem (f := fun book : IndexedBook => book.target.filename)
        inBatch
      rw [sameNames, mem_changed_filenames paths] at isChanged
      obtain ⟨other, otherMem, _, same⟩ := isChanged
      rw [← same]
      exact (mem_disk_by_key otherMem).2.1
  · intro alone
    apply files_kept_of_alone one _ one.following (.refl _)
    intro book inBatch
    have isChanged := List.mem_map_of_mem (f := fun book : IndexedBook => book.target.filename)
      inBatch
    rw [sameNames, mem_changed_filenames paths] at isChanged
    obtain ⟨entry, member, changed, same⟩ := isChanged
    rw [← same]
    exact ⟨(mem_disk_by_key member).2.1, paths.known_file member, alone entry member changed⟩

end Scan

section Example

instance {entry : StatEntry} : Decidable (StatChanged library libraryPath formats entry) :=
  inferInstanceAs (Decidable (_ = true))

instance {scanKey : String} : Decidable (Alone library libraryPath scanKey) :=
  decidable_of_iff ((∀ book ∈ library.books, book.libraryPath = libraryPath →
      book.scanKey = some scanKey → ∀ file ∈ library.files,
        inSlot book.id (pathFormat scanKey) file = true → file.scanKey = some scanKey) ∧
      ∀ entry ∈ library.mergedUuids, entry.libraryPath = libraryPath →
        entry.scanKey = some scanKey →
          slotHeldByOther library entry.bookId entry.format scanKey = false)
    ⟨fun ⟨own, attached⟩ => ⟨own, attached⟩, fun alone => ⟨alone.own, alone.attached⟩⟩

def sharedFormat : Library where
  books := [⟨2, "b", "/books", "", "B", some "b.epub"⟩, ⟨3, "c", "/books", "", "C", some "c.pdf"⟩]
  files := [⟨1, 2, "EPUB", "A", 10, 10, some "a.epub", some "/books", some "", 1, some "A"⟩,
    ⟨2, 2, "EPUB", "B", 20, 20, some "b.epub", none, none, 0, none⟩,
    ⟨3, 3, "PDF", "C", 30, 30, some "c.pdf", none, none, 0, none⟩]
  mergedUuids := [⟨"a", 2, "EPUB", "/books", some "a.epub"⟩]

theorem shared_format_one_identity : OneIdentity sharedFormat := by
  constructor
  case ids => decide
  case ledger => decide
  case files => decide
  case fileFormat =>
    intro file member
    have named : file.scanKey.isSome = true := by
      revert file
      decide
    obtain ⟨key, isKey⟩ := Option.isSome_iff_exists.mp named
    refine ⟨key, isKey, ?_⟩
    have formats : ∀ file ∈ sharedFormat.files,
        nocase file.format = nocase (pathFormat (file.scanKey.getD "")) := by
      decide +kernel
    rw [formats file member, isKey, Option.getD_some]
  case ledgerFormat =>
    intro entry member key isKey
    have formats : ∀ entry ∈ sharedFormat.mergedUuids,
        nocase entry.format = nocase (pathFormat (entry.scanKey.getD "")) := by
      decide +kernel
    rw [formats entry member, isKey, Option.getD_some]
  case bookKeys =>
    intro book member other otherMem _ key _ isKey otherKey
    have keys : ∀ book ∈ sharedFormat.books, ∀ other ∈ sharedFormat.books,
        book.scanKey = other.scanKey → book = other := by
      decide
    exact keys book member other otherMem (isKey.trans otherKey.symm)
  case entryKeys =>
    intro entry member other otherMem _ key _ _ _
    rw [List.mem_singleton.mp member, List.mem_singleton.mp otherMem]
  case apart =>
    intro book member entry entryMem _ key _ isKey otherKey
    have keys : ∀ book ∈ sharedFormat.books, ∀ entry ∈ sharedFormat.mergedUuids,
        book.scanKey ≠ entry.scanKey := by
      decide
    exact keys book member entry entryMem (isKey.trans otherKey.symm)

/-- The listing of the three files, of which the last two have the sizes given. -/
def rewritten (second third : Int) : List StatEntry :=
  [⟨"a.epub", "a.epub", 10, 10⟩, ⟨"b.epub", "b.epub", 20, second⟩, ⟨"c.pdf", "c.pdf", 30, third⟩]

def parsed (target : ParseTarget) : String × Int × Int × Uuid := (target.filename, 9, 9, "n")

theorem same_paths_rewritten {second third : Int}
    (sizes : second = 21 ∧ third = 30 ∨ second = 20 ∧ third = 31) :
    SamePaths sharedFormat (rewritten second third) "/books" ["CBZ", "EPUB", "PDF"] := by
  rcases sizes with ⟨rfl, rfl⟩ | ⟨rfl, rfl⟩ <;> constructor <;> decide +kernel

theorem pdf_change_keeps_files : FilesKept sharedFormat
    (rescan sharedFormat ["/books"] ["CBZ", "EPUB", "PDF"] "/books" (rewritten 20 31) true
      parsed) :=
  (files_kept_iff _ _ _ _ _ _ _ shared_format_one_identity
    (same_paths_rewritten (.inr ⟨rfl, rfl⟩))).mpr (by decide +kernel)

/-- A change of the book's own EPUB drops the row of the EPUB merged into it. -/
theorem own_change_drops_merged_file :
    ¬∀ (library : Library) (scanRoots formats : List String) (libraryPath : String)
      (disk : List StatEntry) (trustworthy : Bool)
      (parse : ParseTarget → String × Int × Int × Uuid), OneIdentity library →
      SamePaths library disk libraryPath formats →
        FilesKept library (rescan library scanRoots formats libraryPath disk trustworthy
          parse) := by
  intro claimed
  have kept := (claimed sharedFormat ["/books"] ["CBZ", "EPUB", "PDF"] "/books" (rewritten 21 30)
    true parsed shared_format_one_identity (same_paths_rewritten (.inl ⟨rfl, rfl⟩))).files
  have sameLength := kept.length_eq
  revert sameLength
  decide +kernel

end Example

end Omnibus.Scan
