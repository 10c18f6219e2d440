import Omnibus.Library.Runs
import Omnibus.Scan.Identities

/-!
# A rescan after merges

Runs of `merge_books` between two scans: a merge that leaves every file its identity keeps the
rows a scan reads of every root, so a disk that has not changed stays Unchanged.
-/

namespace Omnibus.Scan

variable {library : Library} {source target : Book} {scanRoots formats : List String}
  {libraryPath : String} {row : IndexedRow}

theorem in_formats_congr {format other : String} (same : nocase format = nocase other) :
    inFormats format formats = inFormats other formats := by
  unfold inFormats sameFormat
  rw [same]

theorem HasTwin.indexed {book : Book} {file : FileRow} (twin : HasTwin library book file) :
    ∃ other ∈ library.files, other.bookId = book.id ∧ other.scanKey = file.scanKey ∧
      nocase other.format = nocase file.format ∧ ∀ uuid scanKey,
        other.indexed uuid scanKey = file.indexed uuid scanKey := by
  obtain ⟨other, inFiles, joined, sameKey, sameFormat, sameSize, sameTime⟩ := twin
  refine ⟨other, inFiles, joined, sameKey, sameFormat, fun uuid scanKey => ?_⟩
  unfold FileRow.indexed
  rw [sameSize, sameTime]

section Ledger

variable (indexed : Indexed library) (different : source.id ≠ target.id)
include indexed different

omit indexed in
/-- A ledger row after the merge is one that was there, re-pointed, or a guard row. -/
theorem merged_ledger_cases {entry : MergedUuid}
    (member : entry ∈ (mergedLibrary library scanRoots source target).mergedUuids) :
    (∃ old ∈ library.mergedUuids, entry = old.repointed source.id target.id) ∨
      ∃ format ∈ (loadFileRows library source.id).nativeFormats,
        entry = guardRow source target.id format := by
  by_cases isOwn : entry.uuid = source.uuid
  · have rewired := (List.mem_filter.mp member).1
    rcases mem_insert_guards_own _ _ _ _ rewired with guard | old
    · exact .inr guard
    · obtain ⟨before, inLedger, rfl⟩ := List.mem_map.mp old
      exact .inl ⟨before, inLedger, rfl⟩
  · exact .inl ((mem_merged_ledger different entry isOwn).mp member)

theorem ledger_merged (inBooks : source ∈ library.books) {old : MergedUuid}
    (member : old ∈ library.mergedUuids) :
    old.repointed source.id target.id ∈
      (mergedLibrary library scanRoots source target).mergedUuids := by
  refine (mem_merged_ledger different _ ?_).mpr ⟨old, member, rfl⟩
  have foreign := indexed.ledgerUuids old member source inBooks
  unfold MergedUuid.repointed
  split
  · exact foreign
  · exact foreign

omit indexed in
theorem guard_merged (scanRoots : List String)
    (native : (loadFileRows library source.id).nativeFormats ≠ []) :
    ∃ format ∈ (loadFileRows library source.id).nativeFormats,
      guardRow source target.id format ∈
        (mergedLibrary library scanRoots source target).mergedUuids := by
  obtain ⟨format, isNative, inserted⟩ := guard_inserted source
    (library.mergedUuids.map fun row =>
      if row.bookId = source.id then { row with bookId := target.id } else row)
    (loadFileRows library source.id).nativeFormats target.id native
  exact ⟨format, isNative, List.mem_filter.mpr ⟨inserted, decide_eq_true (Ne.symm different)⟩⟩

omit different in
theorem native_format_own (inBooks : source ∈ library.books) {format : String}
    (native : format ∈ (loadFileRows library source.id).nativeFormats) :
    ∃ file ∈ library.files, file.bookId = source.id ∧ file.format = format ∧
      sqlEq file.scanKey source.scanKey = true := by
  obtain ⟨⟨file, inFiles, joined, rfl⟩, foreign⟩ := (mem_native_formats_iff format).mp native
  refine ⟨file, inFiles, joined, rfl, ?_⟩
  by_contra attached
  obtain ⟨entry, inLedger, ofSource, same⟩ :=
    indexed.attached source inBooks file inFiles joined (Bool.eq_false_iff.mpr attached)
  exact foreign entry inLedger ofSource same

end Ledger

section Repointed

variable (entry : MergedUuid) (old new : Int)

@[simp] theorem repointed_uuid : (entry.repointed old new).uuid = entry.uuid := by
  unfold MergedUuid.repointed
  split <;> rfl

@[simp] theorem repointed_format : (entry.repointed old new).format = entry.format := by
  unfold MergedUuid.repointed
  split <;> rfl

@[simp] theorem repointed_libraryPath :
    (entry.repointed old new).libraryPath = entry.libraryPath := by
  unfold MergedUuid.repointed
  split <;> rfl

@[simp] theorem repointed_scanKey : (entry.repointed old new).scanKey = entry.scanKey := by
  unfold MergedUuid.repointed
  split <;> rfl

@[simp] theorem repointed_bookId :
    (entry.repointed old new).bookId = if entry.bookId = old then new else entry.bookId := by
  unfold MergedUuid.repointed
  split <;> rfl

end Repointed

theorem map_merged_books {Column : Type} (column : Book → Column)
    (unpromoted : ∀ book root, column { book with libraryPath := root } = column book) :
    (mergedLibrary library scanRoots source target).books.map column =
      (library.books.filter (·.id ≠ source.id)).map column := by
  unfold mergedLibrary
  rw [List.map_map]
  apply List.map_congr_left
  intro book _
  rw [Function.comp_apply]
  split
  · rcases promote_filed scanRoots (migrateBookFiles library.files source target.id) book with
      same | ⟨_, _, root, moved⟩
    · rw [same]
    · rw [moved, unpromoted]
  · rfl

section Merge

variable (indexed : Indexed library) (guarded : Guarded library source target)
  (different : source.id ≠ target.id) (sourceMem : source ∈ library.books)
  (targetMem : target ∈ library.books)

include guarded in
/-- A file joined to an identity after the merge stands for one joined to it before. -/
theorem joined_before (owner : Int) {after : FileRow}
    (member : after ∈ (mergedLibrary library scanRoots source target).files)
    (joined : after.bookId = if owner = source.id then target.id else owner)
    (asSource : owner = source.id → IdentifiedBy library source after.scanKey)
    (asTarget : owner = target.id → IdentifiedBy library target after.scanKey) :
    ∃ before ∈ library.files, before.bookId = owner ∧ before.scanKey = after.scanKey ∧
      nocase before.format = nocase after.format ∧
      ∀ uuid scanKey, before.indexed uuid scanKey = after.indexed uuid scanKey := by
  obtain ⟨before, inFiles, follows⟩ := merged_file member
  have direct (same : before.bookId = owner) : ∃ before ∈ library.files,
      before.bookId = owner ∧ before.scanKey = after.scanKey ∧
        nocase before.format = nocase after.format ∧
        ∀ uuid scanKey, before.indexed uuid scanKey = after.indexed uuid scanKey :=
    ⟨before, inFiles, same, follows.scanKey.symm, by rw [follows.format],
      fun uuid scanKey => (follows.indexed uuid scanKey).symm⟩
  have twinned {book : Book} (isOwner : owner = book.id) (twin : HasTwin library book before) :
      ∃ before ∈ library.files, before.bookId = owner ∧ before.scanKey = after.scanKey ∧
        nocase before.format = nocase after.format ∧
        ∀ uuid scanKey, before.indexed uuid scanKey = after.indexed uuid scanKey := by
    obtain ⟨other, otherMem, otherJoined, sameKey, sameFormat, sameRow⟩ := twin.indexed
    refine ⟨other, otherMem, otherJoined.trans isOwner.symm, sameKey.trans follows.scanKey.symm,
      sameFormat.trans (by rw [follows.format]), fun uuid scanKey => ?_⟩
    rw [sameRow, follows.indexed]
  have moved := follows.bookId
  rw [joined] at moved
  by_cases wasSource : before.bookId = source.id
  · by_cases isSource : owner = source.id
    · exact direct (wasSource.trans isSource.symm)
    · rw [if_pos wasSource, if_neg isSource] at moved
      refine twinned moved (guarded.sourceApart before inFiles wasSource ?_)
      rw [← follows.scanKey]
      exact asTarget moved
  · by_cases isSource : owner = source.id
    · rw [if_neg wasSource, if_pos isSource] at moved
      refine twinned isSource (guarded.targetApart before inFiles moved.symm ?_)
      rw [← follows.scanKey]
      exact asSource isSource
    · rw [if_neg wasSource, if_neg isSource] at moved
      exact direct moved.symm

include indexed in
theorem same_book {book other : Book} (bookMem : book ∈ library.books)
    (otherMem : other ∈ library.books) (same : book.id = other.id) : book = other :=
  List.inj_on_of_nodup_map indexed.ids bookMem otherMem same

include indexed guarded different sourceMem targetMem

theorem merged_row_known
    (known : KnownRow (mergedLibrary library scanRoots source target) libraryPath formats row)
    (named : row.scanKey ≠ "") : KnownRow library libraryPath formats row := by
  cases known with
  | own after file inBooks root inFiles joined scanned anchor =>
      obtain ⟨book, bookMem, other, sameId, sameUuid, sameKey, moved⟩ := merged_book inBooks
      have filed : book.libraryPath ≠ physicalLibraryPath := by
        intro physical
        apply named
        change after.scanKey.getD "" = ""
        rw [sameKey]
        exact indexed.physical book bookMem physical
      obtain rfl : after = book := moved.resolve_right fun promoted => filed promoted.1
      obtain ⟨before, beforeMem, beforeJoined, beforeKey, beforeFormat, beforeRow⟩ :=
        joined_before guarded after.id inFiles (by rw [if_neg other]; exact joined)
          (fun isSource => absurd isSource other) fun isTarget => by
            obtain rfl := same_book indexed bookMem targetMem isTarget
            exact .inl anchor
      rw [← beforeRow]
      refine .own after before bookMem root beforeMem beforeJoined ?_ ?_
      · rw [in_formats_congr beforeFormat]
        exact scanned
      · rw [beforeKey]
        exact anchor
  | fileless after inBooks root scanned bare =>
      obtain ⟨book, bookMem, other, sameId, sameUuid, sameKey, moved⟩ := merged_book inBooks
      obtain rfl : after = book := by
        apply moved.resolve_right
        rintro ⟨_, file, inFiles, joined⟩
        exact bare file inFiles (joined.trans sameId.symm)
      refine .fileless after bookMem root scanned fun file inFiles joined => ?_
      obtain ⟨file', inFiles', follows⟩ := file_merged scanRoots different inFiles
      apply bare file' inFiles'
      rw [follows.bookId, joined, if_neg other]
  | merged entry file inLedger root inFiles joined scanned anchor =>
      rcases merged_ledger_cases different inLedger with
        ⟨old, oldMem, rfl⟩ | ⟨format, native, rfl⟩
      · rw [repointed_scanKey] at anchor
        obtain ⟨before, beforeMem, beforeJoined, beforeKey, _, beforeRow⟩ :=
          joined_before guarded old.bookId inFiles (by rw [joined, repointed_bookId])
            (fun isSource => .inr ⟨old, oldMem, isSource, anchor⟩)
            fun isTarget => .inr ⟨old, oldMem, isTarget, anchor⟩
        rw [← beforeRow, repointed_uuid, repointed_scanKey]
        rw [repointed_libraryPath] at root
        rw [repointed_format] at scanned
        exact .merged old before oldMem root beforeMem beforeJoined scanned (beforeKey ▸ anchor)
      · obtain ⟨own, ownMem, ownJoined, rfl, ownAnchor⟩ :=
          native_format_own indexed sourceMem native
        obtain ⟨before, beforeMem, beforeJoined, beforeKey, _, beforeRow⟩ :=
          joined_before guarded source.id inFiles (by rw [if_pos rfl]; exact joined)
            (fun _ => .inl anchor) fun isTarget => absurd isTarget different
        have beforeAnchor : sqlEq before.scanKey source.scanKey = true := beforeKey ▸ anchor
        rw [← beforeRow]
        refine .own source before sourceMem root beforeMem beforeJoined ?_ beforeAnchor
        rw [in_formats_congr (indexed.ownFormat source sourceMem before beforeMem own ownMem
          beforeJoined ownJoined beforeAnchor ownAnchor)]
        exact scanned

omit targetMem in
theorem known_row_merged (known : KnownRow library libraryPath formats row)
    (named : row.scanKey ≠ "") (hasFile : row.hasFile = true) :
    KnownRow (mergedLibrary library scanRoots source target) libraryPath formats row := by
  cases known with
  | own book file inBooks root inFiles joined scanned anchor =>
      obtain ⟨after, afterMem, follows⟩ := file_merged scanRoots different inFiles
      rw [← follows.indexed]
      rw [← follows.scanKey] at anchor
      by_cases isSource : book.id = source.id
      · obtain rfl := same_book indexed inBooks sourceMem isSource
        rw [follows.scanKey] at anchor
        have native : file.format ∈ (loadFileRows library book.id).nativeFormats :=
          (mem_native_formats_iff _).mpr ⟨⟨file, inFiles, joined, rfl⟩,
            guarded.ownFormat file inFiles joined anchor⟩
        obtain ⟨format, isNative, inserted⟩ := guard_merged different scanRoots
          (List.ne_nil_of_mem native)
        obtain ⟨own, ownMem, ownJoined, rfl, ownAnchor⟩ :=
          native_format_own indexed inBooks isNative
        refine .merged _ after inserted root afterMem ?_ ?_ (follows.scanKey ▸ anchor)
        · rw [follows.bookId, if_pos joined]
          rfl
        · change inFormats own.format formats = true
          rw [in_formats_congr (indexed.ownFormat book inBooks own ownMem file inFiles ownJoined
            joined ownAnchor anchor)]
          exact scanned
      · have filed : book.libraryPath ≠ physicalLibraryPath := fun physical =>
          named (indexed.physical book inBooks physical)
        refine .own book after (book_merged inBooks isSource filed) root afterMem ?_ ?_ anchor
        · rw [follows.bookId, joined, if_neg isSource]
        · rw [follows.format]
          exact scanned
  | fileless book inBooks root scanned bare => exact absurd hasFile Bool.false_ne_true
  | merged entry file inLedger root inFiles joined scanned anchor =>
      obtain ⟨after, afterMem, follows⟩ := file_merged scanRoots different inFiles
      rw [← follows.indexed, ← repointed_uuid entry source.id target.id,
        ← repointed_scanKey entry source.id target.id]
      refine .merged _ after (ledger_merged indexed different sourceMem inLedger) ?_ afterMem ?_
        ?_ ?_
      · rw [repointed_libraryPath]
        exact root
      · rw [follows.bookId, repointed_bookId, joined]
      · rw [repointed_format]
        exact scanned
      · rw [repointed_scanKey, follows.scanKey]
        exact anchor

theorem merged_indexed : Indexed (mergedLibrary library scanRoots source target) := by
  constructor
  case ids =>
    rw [map_merged_books Book.id fun _ _ => rfl]
    exact indexed.ids.sublist (List.filter_sublist.map _)
  case uuids =>
    rw [map_merged_books Book.uuid fun _ _ => rfl]
    exact indexed.uuids.sublist (List.filter_sublist.map _)
  case ledgerUuids =>
    intro entry inLedger after inBooks
    obtain ⟨book, bookMem, other, _, sameUuid, _⟩ := merged_book inBooks
    rw [sameUuid]
    rcases merged_ledger_cases different inLedger with ⟨old, oldMem, rfl⟩ | ⟨format, _, rfl⟩
    · rw [repointed_uuid]
      exact indexed.ledgerUuids old oldMem book bookMem
    · intro same
      have isSource := List.inj_on_of_nodup_map indexed.uuids bookMem sourceMem same.symm
      exact other (congrArg Book.id isSource)
  case attached =>
    intro after inBooks file inFiles joined foreign
    obtain ⟨book, bookMem, other, sameId, _, sameKey, _⟩ := merged_book inBooks
    obtain ⟨before, beforeMem, follows⟩ := merged_file inFiles
    have moved := follows.bookId
    rw [joined, sameId] at moved
    rw [sameId, follows.format]
    by_cases wasSource : before.bookId = source.id
    · rw [if_pos wasSource] at moved
      cases own : sqlEq before.scanKey source.scanKey with
      | true =>
          have native : before.format ∈ (loadFileRows library source.id).nativeFormats :=
            (mem_native_formats_iff _).mpr ⟨⟨before, beforeMem, wasSource, rfl⟩,
              guarded.ownFormat before beforeMem wasSource own⟩
          obtain ⟨format, isNative, inserted⟩ := guard_merged different scanRoots
            (List.ne_nil_of_mem native)
          obtain ⟨first, firstMem, firstJoined, rfl, firstOwn⟩ :=
            native_format_own indexed sourceMem isNative
          exact ⟨_, inserted, moved.symm, indexed.ownFormat source sourceMem first firstMem before
            beforeMem firstJoined wasSource firstOwn own⟩
      | false =>
          obtain ⟨entry, entryMem, ofSource, sameFormat⟩ :=
            indexed.attached source sourceMem before beforeMem wasSource own
          refine ⟨_, ledger_merged indexed different sourceMem entryMem, ?_, ?_⟩
          · rw [repointed_bookId, if_pos ofSource, moved]
          · rw [repointed_format, sameFormat]
    · rw [if_neg wasSource] at moved
      rw [sameKey, follows.scanKey] at foreign
      obtain ⟨entry, entryMem, ofBook, sameFormat⟩ :=
        indexed.attached book bookMem before beforeMem moved.symm foreign
      refine ⟨_, ledger_merged indexed different sourceMem entryMem, ?_, ?_⟩
      · rw [repointed_bookId, ofBook, if_neg other]
      · rw [repointed_format, sameFormat]
  case ownFormat =>
    intro after inBooks file inFiles file' inFiles' joined joined' anchor anchor'
    obtain ⟨book, bookMem, other, sameId, _, sameKey, _⟩ := merged_book inBooks
    rw [sameId] at joined joined'
    rw [sameKey] at anchor anchor'
    have stood {file : FileRow}
        (inFiles : file ∈ (mergedLibrary library scanRoots source target).files)
        (joined : file.bookId = book.id) (anchor : sqlEq file.scanKey book.scanKey = true) :=
      joined_before guarded book.id inFiles (by rw [if_neg other]; exact joined)
        (fun isSource => absurd isSource other) fun isTarget => by
          obtain rfl := same_book indexed bookMem targetMem isTarget
          exact .inl anchor
    obtain ⟨first, firstMem, firstJoined, firstKey, firstFormat, _⟩ := stood inFiles joined anchor
    obtain ⟨second, secondMem, secondJoined, secondKey, secondFormat, _⟩ :=
      stood inFiles' joined' anchor'
    rw [← firstFormat, ← secondFormat]
    exact indexed.ownFormat book bookMem first firstMem second secondMem firstJoined secondJoined
      (firstKey ▸ anchor) (secondKey ▸ anchor')
  case pathed =>
    intro file inFiles
    obtain ⟨before, beforeMem, follows⟩ := merged_file inFiles
    rw [follows.scanKey]
    exact indexed.pathed before beforeMem
  case physical =>
    intro after inBooks physical
    obtain ⟨book, bookMem, _, _, _, sameKey, moved⟩ := merged_book inBooks
    rw [sameKey]
    apply indexed.physical book bookMem
    rcases moved with rfl | ⟨wasPhysical, _⟩
    · exact physical
    · exact wasPhysical

end Merge

section Runs

/-- A call of `merge_books`; an error rolls its transaction back. -/
structure MergeCall where
  sourceUuid : Uuid
  targetUuid : Uuid
  scanRoots : List String
  aborted : Bool

def MergeCall.merged (call : MergeCall) (library : Library) : Option Library :=
  if call.aborted then none
  else mergeBooks library call.scanRoots call.sourceUuid call.targetUuid

def mergeStep (library : Library) (call : MergeCall) : Option Library :=
  some ((call.merged library).getD library)

/-- The call, if it merges, leaves every file its identity. -/
def GuardedCall (library : Library) (call : MergeCall) : Prop :=
  call.aborted = false → ∀ source ∈ library.books, ∀ target ∈ library.books,
    source.uuid = call.sourceUuid → target.uuid = call.targetUuid → source.id ≠ target.id →
      Guarded library source target

/-- A library whose rows leave a disk listing as settled as the rows of `start` do. -/
structure SettledLike (start library : Library) : Prop where
  indexed : Indexed library
  unchanged : ∀ (disk : List StatEntry) (libraryPath : String) (formats : List String)
    (trustworthy : Bool),
    EveryOrderUnchanged disk (indexedRows start libraryPath formats) libraryPath trustworthy →
      EveryOrderUnchanged disk (indexedRows library libraryPath formats) libraryPath trustworthy

theorem merge_books_cases {scanRoots : List String} {sourceUuid targetUuid : Uuid}
    {next : Library} (merged : mergeBooks library scanRoots sourceUuid targetUuid = some next) :
    ∃ source ∈ library.books, ∃ target ∈ library.books, source.uuid = sourceUuid ∧
      target.uuid = targetUuid ∧ source.id ≠ target.id ∧
        next = mergedLibrary library scanRoots source target := by
  unfold mergeBooks resolveBook at merged
  split_ifs at merged with sameUuid
  obtain ⟨source, isSource, merged⟩ := Option.bind_eq_some_iff.mp merged
  obtain ⟨target, isTarget, merged⟩ := Option.bind_eq_some_iff.mp merged
  split_ifs at merged with sameId
  have sourceNamed : source.uuid = sourceUuid := by simpa using List.find?_some isSource
  have targetNamed : target.uuid = targetUuid := by simpa using List.find?_some isTarget
  exact ⟨source, List.mem_of_find?_eq_some isSource, target, List.mem_of_find?_eq_some isTarget,
    sourceNamed, targetNamed, sameId, (Option.some.inj merged).symm⟩

theorem settled_like_step {start library next : Library} {call : MergeCall}
    (settled : SettledLike start library) (guarded : GuardedCall library call)
    (stepped : mergeStep library call = some next) : SettledLike start next := by
  obtain rfl := Option.some.inj stepped
  cases merged : call.merged library with
  | none => exact settled
  | some after =>
      unfold MergeCall.merged at merged
      split_ifs at merged with aborted
      obtain ⟨source, sourceMem, target, targetMem, isSource, isTarget, different, rfl⟩ :=
        merge_books_cases merged
      have apart := guarded (Bool.eq_false_iff.mpr aborted) source sourceMem target targetMem
        isSource isTarget different
      constructor
      · exact merged_indexed settled.indexed apart different sourceMem targetMem
      · intro disk libraryPath formats trustworthy unchanged
        apply every_order_unchanged_of_rows _ _
          (settled.unchanged disk libraryPath formats trustworthy unchanged)
        · intro row known named
          rw [Option.getD_some, mem_indexed_rows_iff] at known
          exact (mem_indexed_rows_iff ..).mpr (merged_row_known settled.indexed apart different
            sourceMem targetMem known named)
        · intro row known named hasFile
          rw [mem_indexed_rows_iff] at known
          exact (mem_indexed_rows_iff ..).mpr (known_row_merged settled.indexed apart different
            sourceMem known named hasFile)

/-- Merges that leave every file its identity leave an unchanged disk Unchanged. -/
theorem merges_keep_files_unchanged (start final : Library) (calls : List MergeCall)
    (indexed : Indexed start)
    (guarded : Library.Runs.Meets mergeStep GuardedCall start calls)
    (ran : Library.Runs.run mergeStep start calls = some final) (disk : List StatEntry)
    (libraryPath : String) (formats : List String) (trustworthy : Bool)
    (unchanged : EveryOrderUnchanged disk (indexedRows start libraryPath formats) libraryPath
      trustworthy) :
    EveryOrderUnchanged disk (indexedRows final libraryPath formats) libraryPath trustworthy :=
  (Library.Runs.run_keeps mergeStep
    (fun _ _ _ settled guarded stepped => settled_like_step settled guarded stepped) calls
    ⟨indexed, fun _ _ _ _ => id⟩ guarded ran).unchanged disk libraryPath formats trustworthy
    unchanged

end Runs

section Decisions

instance {entry : StatEntry} : Decidable (row.Settled entry) :=
  inferInstanceAs (Decidable (_ ∧ _ ∧ _ ∧ _))

instance {book : Book} {scanKey : Option String} :
    Decidable (IdentifiedBy library book scanKey) :=
  inferInstanceAs (Decidable (_ ∨ _))

instance {book : Book} {file : FileRow} : Decidable (HasTwin library book file) :=
  inferInstanceAs (Decidable (∃ twin ∈ library.files, _ ∧ _))

instance {book other : Book} : Decidable (KeptApart library book other) :=
  inferInstanceAs (Decidable (∀ file ∈ library.files, _ → _ → _))

instance : Decidable (Guarded library source target) :=
  decidable_of_iff ((∀ file ∈ library.files, file.bookId = source.id →
      sqlEq file.scanKey source.scanKey = true → ∀ entry ∈ library.mergedUuids,
        entry.bookId = source.id → nocase entry.format ≠ nocase file.format) ∧
      KeptApart library source target ∧ KeptApart library target source)
    ⟨fun ⟨ownFormat, sourceApart, targetApart⟩ => ⟨ownFormat, sourceApart, targetApart⟩,
      fun guarded => ⟨guarded.ownFormat, guarded.sourceApart, guarded.targetApart⟩⟩

instance {call : MergeCall} : Decidable (GuardedCall library call) :=
  inferInstanceAs (Decidable (_ → ∀ source ∈ library.books, ∀ target ∈ library.books, _ → _))

end Decisions

section Example

/-- Three books of `/books`, each with the one file it was indexed from. -/
def threeBooks (first second third : String) : Library where
  books := [⟨1, "a", "/books", "", "A", some first⟩, ⟨2, "b", "/books", "", "B", some second⟩,
    ⟨3, "c", "/books", "", "C", some third⟩]
  files := [⟨1, 1, pathFormat first, "A", 10, 10, some first, none, none, 0, none⟩,
    ⟨2, 2, pathFormat second, "B", 20, 20, some second, none, none, 0, none⟩,
    ⟨3, 3, pathFormat third, "C", 30, 30, some third, none, none, 0, none⟩]
  mergedUuids := []

def listing (first second third : String) : List StatEntry :=
  [⟨first, first, 10, 10⟩, ⟨second, second, 20, 20⟩, ⟨third, third, 30, 30⟩]

def chain : List MergeCall := [⟨"a", "b", ["/books"], false⟩, ⟨"b", "c", ["/books"], false⟩]

theorem three_books_indexed {first second third : String}
    (distinct : first ≠ "" ∧ second ≠ "" ∧ third ≠ "") :
    Indexed (threeBooks first second third) := by
  obtain ⟨firstNamed, secondNamed, thirdNamed⟩ := distinct
  constructor <;> simp [threeBooks, sqlEq, firstNamed, secondNamed, thirdNamed,
    physicalLibraryPath]

/-- Two merges of books of different formats. -/
theorem chain_of_formats_unchanged :
    EveryOrderUnchanged (listing "a.epub" "b.pdf" "c.cbz")
      (indexedRows ((Library.Runs.run mergeStep (threeBooks "a.epub" "b.pdf" "c.cbz") chain).getD
        (threeBooks "a.epub" "b.pdf" "c.cbz")) "/books" ["CBZ", "EPUB", "PDF"]) "/books" true :=
  merges_keep_files_unchanged (threeBooks "a.epub" "b.pdf" "c.cbz") _ chain
    (three_books_indexed (by decide)) (by decide +kernel) rfl _ _ _ _
    ((every_order_unchanged_iff ..).mpr (by decide +kernel))

/-- An EPUB merged into a book of another EPUB, and the two into a third: the file of the second
book has no identity left and is found as new. -/
theorem chain_of_one_format_resurfaces :
    ¬∀ (start final : Library) (calls : List MergeCall) (disk : List StatEntry)
      (libraryPath : String) (formats : List String) (trustworthy : Bool), Indexed start →
      Library.Runs.run mergeStep start calls = some final →
      EveryOrderUnchanged disk (indexedRows start libraryPath formats) libraryPath trustworthy →
        EveryOrderUnchanged disk (indexedRows final libraryPath formats) libraryPath
          trustworthy := by
  intro claimed
  have unchanged := claimed (threeBooks "a.epub" "b.epub" "c.epub") _ chain
    (listing "a.epub" "b.epub" "c.epub") "/books" ["CBZ", "EPUB", "PDF"] true
    (three_books_indexed (by decide)) rfl ((every_order_unchanged_iff ..).mpr (by decide +kernel))
  have noneNew := (unchanged _ (.refl _)).1.new
  revert noneNew
  decide +kernel

end Example

end Omnibus.Scan
