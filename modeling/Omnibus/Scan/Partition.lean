import Mathlib.Data.List.Sigma
import Omnibus.Scan.Iterated

/-!
# The diff is a partition

With one entry and one row for a path, every file of a listing is in exactly one bucket and
every vanished row is moved or removed, the same under every order of either side and of the
maps.
-/

namespace Omnibus.Scan

variable {order : Iteration} {disk : List StatEntry} {db : List IndexedRow}
  {libraryRoot : String} {trustworthy : Bool}

section Statement

/-- One entry and one row for a path, and one row for a uuid; an entry with a key is under its
path. -/
structure OnePath (disk : List StatEntry) (db : List IndexedRow) : Prop where
  keys : ((disk.filter (·.scanKey ≠ "")).map (·.scanKey)).Nodup
  named : ∀ entry ∈ disk, entry.scanKey ≠ "" → entry.filename = entry.scanKey
  rowKeys : ((db.filter (·.scanKey ≠ "")).map (·.scanKey)).Nodup
  uuids : (db.map (·.uuid)).Nodup

def arrivedFiles (disk : List StatEntry) (db : List IndexedRow) : List StatEntry :=
  disk.filter fun entry => entry.scanKey ≠ "" && !db.any (·.scanKey = entry.scanKey)

def Relocated (disk : List StatEntry) (db : List IndexedRow) (trustworthy : Bool)
    (row : IndexedRow) (entry : StatEntry) : Prop :=
  Matched (fun row => row) (fun entry => entry) (collectDepartures db disk trustworthy)
    (arrivedFiles disk db) row entry

/-- A row with a file that the walk did not come across. -/
def Vanished (disk : List StatEntry) (trustworthy : Bool) (row : IndexedRow) : Prop :=
  trustworthy = true ∧ row.hasFile = true ∧ row.scanKey ≠ "" ∧
    ∀ entry ∈ disk, entry.scanKey ≠ row.scanKey

inductive Bucket where
  | unchanged
  | new
  | changed
  | moved
  | backfill
  deriving DecidableEq, Repr

/-- A bucket holds a file of the listing, by its path or by the uuid of its row. -/
def ReindexDiff.Holds (diff : ReindexDiff) (db : List IndexedRow) (entry : StatEntry) :
    Bucket → Prop
  | .unchanged => ∃ row ∈ db, row.scanKey = entry.scanKey ∧ row.uuid ∈ diff.unchanged
  | .new => ∃ target ∈ diff.new, target.filename = entry.filename
  | .changed => ∃ target ∈ diff.changed, target.filename = entry.filename
  | .moved => ∃ move ∈ diff.moved, move.filename = entry.filename
  | .backfill => ∃ row ∈ db, row.scanKey = entry.scanKey ∧
      ∃ item ∈ diff.backfill, item.1 = row.uuid

def ReindexDiff.MovesRow (diff : ReindexDiff) (row : IndexedRow) : Prop :=
  ∃ move ∈ diff.moved, move.uuid = row.uuid

structure Partitions (diff : ReindexDiff) (disk : List StatEntry) (db : List IndexedRow)
    (trustworthy : Bool) : Prop where
  files : ∀ entry ∈ disk, entry.scanKey ≠ "" → ∃! bucket, diff.Holds db entry bucket
  vanished : ∀ row ∈ db, Vanished disk trustworthy row →
    (diff.MovesRow row ∨ row.uuid ∈ diff.removed) ∧
      ¬(diff.MovesRow row ∧ row.uuid ∈ diff.removed)
  others : ∀ row ∈ db, ¬Vanished disk trustworthy row →
    ¬diff.MovesRow row ∧ row.uuid ∉ diff.removed
  moves : ∀ row ∈ db, ∀ entry ∈ disk, entry.scanKey ≠ "" →
    (⟨row.uuid, entry.filename⟩ ∈ diff.moved ↔ Relocated disk db trustworthy row entry)
  once : diff.unchanged.Nodup ∧ diff.new.Nodup ∧ diff.changed.Nodup ∧ diff.moved.Nodup ∧
    diff.removed.Nodup ∧ diff.backfill.Nodup

end Statement

section Lookup

theorem mem_disk_by_key_iff (keys : ((disk.filter (·.scanKey ≠ "")).map (·.scanKey)).Nodup)
    (entry : StatEntry) : entry ∈ diskByKey disk ↔ entry ∈ disk ∧ entry.scanKey ≠ "" := by
  constructor
  · intro member
    exact ⟨(mem_disk_by_key member).1, (mem_disk_by_key member).2.1⟩
  · intro ⟨member, hasKey⟩
    obtain ⟨found, isLast⟩ := last_by_key_of_mem member hasKey
    obtain ⟨inDisk, same, _⟩ := last_by_key_some isLast
    have isEntry : found = entry := List.inj_on_of_nodup_map keys
      (List.mem_filter.mpr ⟨inDisk, decide_eq_true (same ▸ hasKey)⟩)
      (List.mem_filter.mpr ⟨member, decide_eq_true hasKey⟩) same
    rw [isEntry] at isLast
    exact List.mem_filterMap.mpr ⟨entry.scanKey,
      List.mem_dedup.mpr (List.mem_map_of_mem member), isLast⟩

theorem keyed_disk_nodup : (diskByKey disk).Nodup := by
  apply (List.nodup_dedup _).filterMap
  intro left right entry isLeft isRight
  exact (last_by_key_some isLeft).2.1.symm.trans (last_by_key_some isRight).2.1

theorem disk_by_key_keys (entries : List StatEntry) (perm : entries.Perm (diskByKey disk)) :
    entries.Pairwise (·.scanKey ≠ ·.scanKey) := by
  have distinct := perm.nodup_iff.mpr keyed_disk_nodup
  apply distinct.imp_of_mem
  intro left right leftMem rightMem apart same
  have leftLast := (mem_disk_by_key (perm.mem_iff.mp leftMem)).2.2
  rw [same, (mem_disk_by_key (perm.mem_iff.mp rightMem)).2.2, Option.some.injEq] at leftLast
  exact apart leftLast.symm

theorem last_by_key_eq_some_iff
    (rowKeys : ((db.filter (·.scanKey ≠ "")).map (·.scanKey)).Nodup) (key : String)
    (row : IndexedRow) : lastByKey IndexedRow.scanKey db key = some row ↔
      row ∈ db ∧ row.scanKey = key ∧ key ≠ "" := by
  constructor
  · exact last_by_key_some
  · intro ⟨member, same, hasKey⟩
    subst same
    obtain ⟨found, isLast⟩ := last_by_key_of_mem member hasKey
    obtain ⟨inDb, same, _⟩ := last_by_key_some isLast
    have isRow : found = row := List.inj_on_of_nodup_map rowKeys
      (List.mem_filter.mpr ⟨inDb, decide_eq_true (same ▸ hasKey)⟩)
      (List.mem_filter.mpr ⟨member, decide_eq_true hasKey⟩) same
    rw [isRow] at isLast
    exact isLast

theorem last_by_key_eq_none_iff (key : String) (hasKey : key ≠ "") :
    lastByKey IndexedRow.scanKey db key = none ↔ ∀ row ∈ db, row.scanKey ≠ key := by
  constructor
  · intro absent row member same
    subst same
    obtain ⟨found, isLast⟩ := last_by_key_of_mem member hasKey
    rw [absent] at isLast
    cases isLast
  · intro apart
    rw [Option.eq_none_iff_forall_ne_some]
    intro row found
    obtain ⟨member, same, _⟩ := last_by_key_some found
    exact apart row member same

end Lookup

section Classified

def rowFor (db : List IndexedRow) (entry : StatEntry) (test : IndexedRow → Bool) :
    Option IndexedRow :=
  (lastByKey IndexedRow.scanKey db entry.scanKey).filter test

def IndexedRow.neverObserved (row : IndexedRow) : Bool := row.mtimeEpoch = 0 && row.sizeBytes = 0

def IndexedRow.sameStat (row : IndexedRow) (entry : StatEntry) : Bool :=
  row.mtimeEpoch = entry.mtimeEpoch && row.sizeBytes = entry.sizeBytes

def IndexedRow.isUnchanged (row : IndexedRow) (entry : StatEntry) : Bool :=
  row.hasFile && !row.neverObserved && row.sameStat entry

def IndexedRow.isChanged (row : IndexedRow) (entry : StatEntry) : Bool :=
  !row.hasFile || !row.neverObserved && !row.sameStat entry

def IndexedRow.isBackfill (row : IndexedRow) : Bool := row.hasFile && row.neverObserved

theorem verdict_cases (row : IndexedRow) (entry : StatEntry) :
    (row.isUnchanged entry = true ∧ row.isChanged entry = false ∧ row.isBackfill = false) ∨
    (row.isUnchanged entry = false ∧ row.isChanged entry = true ∧ row.isBackfill = false) ∨
    (row.isUnchanged entry = false ∧ row.isChanged entry = false ∧ row.isBackfill = true) := by
  unfold IndexedRow.isUnchanged IndexedRow.isChanged IndexedRow.isBackfill
  cases row.hasFile <;> cases row.neverObserved <;> cases row.sameStat entry <;> simp

/-- The buckets that one pass over the files fills. -/
def classifiedFiles (db : List IndexedRow) (libraryRoot : String) (entries : List StatEntry) :
    ReindexDiff × List StatEntry :=
  ({ unchanged := entries.filterMap fun entry =>
        (rowFor db entry (·.isUnchanged entry)).map (·.uuid)
     changed := entries.filterMap fun entry =>
        (rowFor db entry (·.isChanged entry)).map fun _ => parseTarget entry libraryRoot
     backfill := entries.filterMap fun entry =>
        (rowFor db entry (·.isBackfill)).map fun row =>
          (row.uuid, entry.mtimeEpoch, entry.sizeBytes) },
    entries.filter fun entry => (lastByKey IndexedRow.scanKey db entry.scanKey).isNone)

theorem classify_fold (db : List IndexedRow) (libraryRoot : String) (entries : List StatEntry) :
    entries.foldr (classifyArrival db libraryRoot) ({}, []) =
      classifiedFiles db libraryRoot entries := by
  induction entries with
  | nil => rfl
  | cons entry rest induction =>
      rw [List.foldr_cons, induction]
      unfold classifyArrival classifiedFiles rowFor
      cases found : lastByKey IndexedRow.scanKey db entry.scanKey with
      | none => simp [found]
      | some row =>
          cases hasFile : row.hasFile with
          | false =>
              simp [found, Option.filter, IndexedRow.isUnchanged, IndexedRow.isChanged,
                IndexedRow.isBackfill, hasFile]
          | true =>
              by_cases never : row.mtimeEpoch = 0 ∧ row.sizeBytes = 0
              · simp [found, Option.filter, IndexedRow.isUnchanged, IndexedRow.isChanged,
                  IndexedRow.isBackfill, IndexedRow.neverObserved, hasFile, never]
              · have observed : row.neverObserved = false := by
                  simpa [IndexedRow.neverObserved] using never
                by_cases same : row.mtimeEpoch = entry.mtimeEpoch ∧
                    row.sizeBytes = entry.sizeBytes
                · have isSame : row.sameStat entry = true := by
                    simpa [IndexedRow.sameStat] using same
                  have seen : ¬(entry.mtimeEpoch = 0 ∧ entry.sizeBytes = 0) := by
                    rw [← same.1, ← same.2]
                    exact never
                  simp [found, Option.filter, IndexedRow.isUnchanged, IndexedRow.isChanged,
                    IndexedRow.isBackfill, hasFile, observed, isSame, seen, same]
                · have differs : row.sameStat entry = false := by
                    simpa [IndexedRow.sameStat] using same
                  simp [found, Option.filter, IndexedRow.isUnchanged, IndexedRow.isChanged,
                    IndexedRow.isBackfill, hasFile, observed, differs, never, same]

theorem row_for_eq_some_iff {entry : StatEntry} {test : IndexedRow → Bool} {row : IndexedRow} :
    rowFor db entry test = some row ↔
      lastByKey IndexedRow.scanKey db entry.scanKey = some row ∧ test row = true :=
  Option.filter_eq_some_iff

end Classified

section Contents

def IndexedRow.Answers (row : IndexedRow) (entry : StatEntry) : Prop :=
  row.scanKey = entry.scanKey ∧ entry.scanKey ≠ ""

structure Contents (diff : ReindexDiff) (disk : List StatEntry) (db : List IndexedRow)
    (libraryRoot : String) (trustworthy : Bool) : Prop where
  unchanged : ∀ uuid, uuid ∈ diff.unchanged ↔ ∃ row ∈ db, ∃ entry ∈ disk, row.Answers entry ∧
    row.isUnchanged entry = true ∧ row.uuid = uuid
  changed : ∀ target, target ∈ diff.changed ↔ ∃ row ∈ db, ∃ entry ∈ disk, row.Answers entry ∧
    row.isChanged entry = true ∧ parseTarget entry libraryRoot = target
  backfill : ∀ item, item ∈ diff.backfill ↔ ∃ row ∈ db, ∃ entry ∈ disk, row.Answers entry ∧
    row.isBackfill = true ∧ (row.uuid, entry.mtimeEpoch, entry.sizeBytes) = item
  new : ∀ target, target ∈ diff.new ↔ ∃ entry ∈ arrivedFiles disk db,
    (∀ row, ¬Relocated disk db trustworthy row entry) ∧ parseTarget entry libraryRoot = target
  moved : ∀ move, move ∈ diff.moved ↔ ∃ row entry, Relocated disk db trustworthy row entry ∧
    ⟨row.uuid, entry.filename⟩ = move
  removed : ∀ uuid, uuid ∈ diff.removed ↔ ∃ row ∈ collectDepartures db disk trustworthy,
    (∀ entry, ¬Relocated disk db trustworthy row entry) ∧ row.uuid = uuid
  once : diff.unchanged.Nodup ∧ diff.new.Nodup ∧ diff.changed.Nodup ∧ diff.moved.Nodup ∧
    diff.removed.Nodup ∧ diff.backfill.Nodup

def walkedFiles (order : Iteration) (disk : List StatEntry) : List StatEntry :=
  (order.walk ((diskByKey disk).map fun entry => (entry.scanKey, entry))).map (·.2)

theorem walked_files_perm : (walkedFiles order disk).Perm (diskByKey disk) := by
  have perm := (order.perm ((diskByKey disk).map fun entry => (entry.scanKey, entry))).map (·.2)
  rw [List.map_map] at perm
  exact perm.trans (.of_eq (List.map_id _))

theorem filter_map_files_nodup {Result : Type} (draw : StatEntry → Option Result)
    (apart : ∀ left ∈ walkedFiles order disk, ∀ right ∈ walkedFiles order disk,
      ∀ result, draw left = some result → draw right = some result →
        left.scanKey = right.scanKey) :
    ((walkedFiles order disk).filterMap draw).Nodup := by
  rw [List.Nodup, List.pairwise_filterMap]
  apply (disk_by_key_keys _ walked_files_perm).imp_of_mem
  intro left right leftMem rightMem keys result isLeft other isRight same
  subst same
  exact keys (apart left leftMem right rightMem result isLeft isRight)

variable (one : OnePath disk db)
include one

theorem row_of_uuid {left right : IndexedRow} (leftMem : left ∈ db) (rightMem : right ∈ db)
    (same : left.uuid = right.uuid) : left = right :=
  List.inj_on_of_nodup_map one.uuids leftMem rightMem same

theorem entry_of_key {left right : StatEntry} (leftMem : left ∈ disk) (rightMem : right ∈ disk)
    (hasKey : left.scanKey ≠ "") (same : left.scanKey = right.scanKey) : left = right :=
  List.inj_on_of_nodup_map one.keys (List.mem_filter.mpr ⟨leftMem, decide_eq_true hasKey⟩)
    (List.mem_filter.mpr ⟨rightMem, decide_eq_true (same ▸ hasKey)⟩) same

theorem mem_walked_files (entry : StatEntry) :
    entry ∈ walkedFiles order disk ↔ entry ∈ disk ∧ entry.scanKey ≠ "" := by
  rw [walked_files_perm.mem_iff, mem_disk_by_key_iff one.keys]

theorem row_for_iff {entry : StatEntry} {test : IndexedRow → Bool} {row : IndexedRow} :
    rowFor db entry test = some row ↔ row ∈ db ∧ row.Answers entry ∧ test row = true := by
  rw [row_for_eq_some_iff, last_by_key_eq_some_iff one.rowKeys]
  exact ⟨fun ⟨⟨member, same, hasKey⟩, passes⟩ => ⟨member, ⟨same, hasKey⟩, passes⟩,
    fun ⟨member, ⟨same, hasKey⟩, passes⟩ => ⟨⟨member, same, hasKey⟩, passes⟩⟩

theorem mem_filter_map_files {Result : Type} (test : StatEntry → IndexedRow → Bool)
    (put : StatEntry → IndexedRow → Result) (result : Result) :
    result ∈ (walkedFiles order disk).filterMap (fun entry =>
      (rowFor db entry (test entry)).map (put entry)) ↔
      ∃ row ∈ db, ∃ entry ∈ disk, row.Answers entry ∧ test entry row = true ∧
        put entry row = result := by
  rw [List.mem_filterMap]
  constructor
  · intro ⟨entry, entryMem, drawn⟩
    obtain ⟨row, found, same⟩ := Option.map_eq_some_iff.mp drawn
    obtain ⟨rowMem, answers, passes⟩ := (row_for_iff one).mp found
    exact ⟨row, rowMem, entry, ((mem_walked_files one entry).mp entryMem).1, answers, passes, same⟩
  · intro ⟨row, rowMem, entry, entryMem, answers, passes, same⟩
    exact ⟨entry, (mem_walked_files one entry).mpr ⟨entryMem, answers.2⟩,
      Option.map_eq_some_iff.mpr ⟨row, (row_for_iff one).mpr ⟨rowMem, answers, passes⟩, same⟩⟩

theorem mem_arrivals (entry : StatEntry) :
    (entry ∈ (walkedFiles order disk).filter fun entry =>
      (lastByKey IndexedRow.scanKey db entry.scanKey).isNone) ↔ entry ∈ arrivedFiles disk db := by
  rw [List.mem_filter, mem_walked_files one, arrivedFiles, List.mem_filter, Option.isNone_iff_eq_none]
  constructor
  · intro ⟨⟨member, hasKey⟩, absent⟩
    rw [last_by_key_eq_none_iff _ hasKey] at absent
    exact ⟨member, by simpa [hasKey] using absent⟩
  · intro ⟨member, isNew⟩
    simp only [Bool.and_eq_true, decide_eq_true_eq, Bool.not_eq_true', List.any_eq_false] at isNew
    exact ⟨⟨member, isNew.1⟩, (last_by_key_eq_none_iff _ isNew.1).mpr isNew.2⟩

theorem arrived_apart {left right : StatEntry} (leftMem : left ∈ arrivedFiles disk db)
    (rightMem : right ∈ arrivedFiles disk db) (same : left.filename = right.filename) :
    left = right := by
  obtain ⟨leftDisk, leftNew⟩ := List.mem_filter.mp leftMem
  obtain ⟨rightDisk, rightNew⟩ := List.mem_filter.mp rightMem
  simp only [Bool.and_eq_true, decide_eq_true_eq] at leftNew rightNew
  rw [one.named left leftDisk leftNew.1, one.named right rightDisk rightNew.1] at same
  exact entry_of_key one leftDisk rightDisk leftNew.1 same

end Contents

section Split

variable {departures : List IndexedRow} {arrivals : List StatEntry}

theorem mem_of_mem_zip_idx {Item : Type} {items : List Item} {entry : Item × Nat}
    (member : entry ∈ items.zipIdx) : entry.1 ∈ items :=
  List.mem_of_getElem? (List.mem_zipIdx_iff_getElem?.mp member)

theorem zip_idx_index {Item : Type} {items : List Item} {left right : Item × Nat}
    (leftMem : left ∈ items.zipIdx) (rightMem : right ∈ items.zipIdx)
    (same : left.2 = right.2) : left = right := by
  have leftPlace := List.mem_zipIdx_iff_getElem?.mp leftMem
  rw [same, List.mem_zipIdx_iff_getElem?.mp rightMem, Option.some.injEq] at leftPlace
  exact Prod.ext leftPlace.symm same

theorem same_of_zip_idx {Item : Type} {items : List Item} (distinct : items.Nodup)
    {left right : Item × Nat} (leftMem : left ∈ items.zipIdx) (rightMem : right ∈ items.zipIdx)
    (same : left.1 = right.1) : left = right := by
  have leftPlace := List.mem_zipIdx_iff_getElem?.mp leftMem
  have rightPlace := List.mem_zipIdx_iff_getElem?.mp rightMem
  rw [same] at leftPlace
  obtain ⟨bound, _⟩ := List.getElem?_eq_some_iff.mp leftPlace
  exact Prod.ext same ((List.getElem?_inj bound distinct).mp (leftPlace.trans rightPlace.symm))

theorem exists_zip_idx {Item : Type} {items : List Item} {item : Item} (member : item ∈ items) :
    ∃ index, (item, index) ∈ items.zipIdx :=
  (List.getElem?_of_mem member).imp fun _ place => List.mem_zipIdx_iff_getElem?.mpr place

theorem only_zip_idx_iff {Item Key : Type} (keyOf : Item → Key) {items : List Item}
    (distinct : items.Nodup) {entry : Item × Nat} (member : entry ∈ items.zipIdx) :
    OnlyOfKey (fun other : Item × Nat => keyOf other.1) items.zipIdx entry ↔
      OnlyOfKey keyOf items entry.1 := by
  have place := List.mem_zipIdx_iff_getElem?.mp member
  constructor
  · intro alone other otherMem same
    obtain ⟨index, isOther⟩ := List.getElem?_of_mem otherMem
    have isEntry := alone (other, index) (List.mem_zipIdx_iff_getElem?.mpr isOther) same
    exact congrArg Prod.fst isEntry
  · intro alone other otherMem same
    have otherPlace := List.mem_zipIdx_iff_getElem?.mp otherMem
    have isEntry := alone other.1 (List.mem_of_getElem? otherPlace) same
    exact same_of_zip_idx distinct otherMem member isEntry

/-- Matching indexed rows with indexed entries matches the rows with the entries. -/
theorem matched_zip_idx_iff (rowsNodup : departures.Nodup) (entriesNodup : arrivals.Nodup)
    (row : Departure) (entry : Arrival) :
    Matched (fun row : Departure => row.1) (fun entry : Arrival => entry.1) departures.zipIdx
        arrivals.zipIdx row entry ↔
      row ∈ departures.zipIdx ∧ entry ∈ arrivals.zipIdx ∧
        Matched (fun row => row) (fun entry => entry) departures arrivals row.1 entry.1 := by
  have keys (departed : row ∈ departures.zipIdx) (arrived : entry ∈ arrivals.zipIdx) :=
    And.intro (only_zip_idx_iff IndexedRow.matchKey rowsNodup departed)
      (only_zip_idx_iff StatEntry.matchKey entriesNodup arrived)
  have stems (departed : row ∈ departures.zipIdx) (arrived : entry ∈ arrivals.zipIdx) :=
    And.intro
      (only_zip_idx_iff (fun row => (row.matchKey, pathStem row.scanKey)) rowsNodup departed)
      (only_zip_idx_iff (fun entry => (entry.matchKey, pathStem entry.scanKey)) entriesNodup
        arrived)
  constructor
  · intro ⟨departed, arrived, observed, same, told⟩
    rw [(keys departed arrived).1, (keys departed arrived).2, (stems departed arrived).1,
      (stems departed arrived).2] at told
    exact ⟨departed, arrived, mem_of_mem_zip_idx departed, mem_of_mem_zip_idx arrived, observed,
      same, told⟩
  · intro ⟨departed, arrived, _, _, observed, same, told⟩
    refine ⟨departed, arrived, observed, same, ?_⟩
    rw [(keys departed arrived).1, (keys departed arrived).2, (stems departed arrived).1,
      (stems departed arrived).2]
    exact told

theorem matched_congr {others : List IndexedRow} {more : List StatEntry}
    (sameRows : ∀ row, row ∈ departures ↔ row ∈ others)
    (sameEntries : ∀ entry, entry ∈ arrivals ↔ entry ∈ more) (row : IndexedRow)
    (entry : StatEntry) :
    Matched (fun row => row) (fun entry => entry) departures arrivals row entry ↔
      Matched (fun row => row) (fun entry => entry) others more row entry := by
  have rows {Key : Type} (keyOf : IndexedRow → Key) :
      OnlyOfKey keyOf departures row ↔ OnlyOfKey keyOf others row := by
    unfold OnlyOfKey
    simp only [sameRows]
  have entries {Key : Type} (keyOf : StatEntry → Key) :
      OnlyOfKey keyOf arrivals entry ↔ OnlyOfKey keyOf more entry := by
    unfold OnlyOfKey
    simp only [sameEntries]
  constructor
  · intro ⟨departed, arrived, observed, same, told⟩
    rw [rows, rows, entries, entries] at told
    exact ⟨(sameRows row).mp departed, (sameEntries entry).mp arrived, observed, same, told⟩
  · intro ⟨departed, arrived, observed, same, told⟩
    rw [← rows, ← rows, ← entries, ← entries] at told
    exact ⟨(sameRows row).mpr departed, (sameEntries entry).mpr arrived, observed, same, told⟩

variable (rowsNodup : departures.Nodup) (entriesNodup : arrivals.Nodup) {out : ReindexDiff}
include rowsNodup entriesNodup

theorem mem_pairs (pair : Departure × Arrival) :
    pair ∈ matchMovedFilesBy order departures.zipIdx arrivals.zipIdx ↔
      pair.1 ∈ departures.zipIdx ∧ pair.2 ∈ arrivals.zipIdx ∧
        Matched (fun row => row) (fun entry => entry) departures arrivals pair.1.1 pair.2.1 := by
  rw [mem_match_moved_files (List.Nodup.of_map _ (List.nodup_zipIdx_map_snd departures))
    (List.Nodup.of_map _ (List.nodup_zipIdx_map_snd arrivals)),
    matched_zip_idx_iff rowsNodup entriesNodup]

theorem mem_split_moved (move : MovedFile) :
    move ∈ (splitMovedBy order departures arrivals libraryRoot out).moved ↔
      ∃ row entry, Matched (fun row => row) (fun entry => entry) departures arrivals row entry ∧
        ⟨row.uuid, entry.filename⟩ = move := by
  unfold splitMovedBy
  dsimp only
  rw [List.mem_map]
  constructor
  · intro ⟨pair, member, same⟩
    exact ⟨_, _, ((mem_pairs rowsNodup entriesNodup pair).mp member).2.2, same⟩
  · intro ⟨row, entry, matched, same⟩
    obtain ⟨i, rowMem⟩ := exists_zip_idx matched.departed
    obtain ⟨j, entryMem⟩ := exists_zip_idx matched.arrived
    exact ⟨((row, i), (entry, j)), (mem_pairs rowsNodup entriesNodup _).mpr
      ⟨rowMem, entryMem, matched⟩, same⟩

theorem mem_split_new (target : ParseTarget) :
    target ∈ (splitMovedBy order departures arrivals libraryRoot out).new ↔
      ∃ entry ∈ arrivals, (∀ row, ¬Matched (fun row => row) (fun entry => entry) departures
        arrivals row entry) ∧ parseTarget entry libraryRoot = target := by
  unfold splitMovedBy
  dsimp only
  rw [List.mem_map]
  simp only [List.mem_filter, Bool.not_eq_true', List.any_eq_false, decide_eq_true_eq]
  constructor
  · intro ⟨entry, ⟨entryMem, unpaired⟩, same⟩
    refine ⟨entry.1, mem_of_mem_zip_idx entryMem, fun row matched => ?_, same⟩
    obtain ⟨i, rowMem⟩ := exists_zip_idx matched.departed
    exact unpaired ((row, i), entry) ((mem_pairs rowsNodup entriesNodup _).mpr
      ⟨rowMem, entryMem, matched⟩) rfl
  · intro ⟨entry, entryMem, unmatched, same⟩
    obtain ⟨j, indexed⟩ := exists_zip_idx entryMem
    refine ⟨(entry, j), ⟨indexed, fun pair pairMem sameIndex => ?_⟩, same⟩
    obtain ⟨_, inEntries, matched⟩ := (mem_pairs rowsNodup entriesNodup pair).mp pairMem
    rw [zip_idx_index inEntries indexed sameIndex] at matched
    exact unmatched _ matched

theorem mem_split_removed (uuid : Uuid) :
    uuid ∈ (splitMovedBy order departures arrivals libraryRoot out).removed ↔
      ∃ row ∈ departures, (∀ entry, ¬Matched (fun row => row) (fun entry => entry) departures
        arrivals row entry) ∧ row.uuid = uuid := by
  unfold splitMovedBy
  dsimp only
  rw [List.mem_map]
  simp only [List.mem_filter, Bool.not_eq_true', List.any_eq_false, decide_eq_true_eq]
  constructor
  · intro ⟨row, ⟨rowMem, unpaired⟩, same⟩
    refine ⟨row.1, mem_of_mem_zip_idx rowMem, fun entry matched => ?_, same⟩
    obtain ⟨j, entryMem⟩ := exists_zip_idx matched.arrived
    exact unpaired (row, (entry, j)) ((mem_pairs rowsNodup entriesNodup _).mpr
      ⟨rowMem, entryMem, matched⟩) rfl
  · intro ⟨row, rowMem, unmatched, same⟩
    obtain ⟨i, indexed⟩ := exists_zip_idx rowMem
    refine ⟨(row, i), ⟨indexed, fun pair pairMem sameIndex => ?_⟩, same⟩
    obtain ⟨inRows, _, matched⟩ := (mem_pairs rowsNodup entriesNodup pair).mp pairMem
    rw [zip_idx_index inRows indexed sameIndex] at matched
    exact unmatched _ matched

theorem split_moved_nodup
    (uuids : ∀ left ∈ departures, ∀ right ∈ departures, left.uuid = right.uuid → left = right)
    (filenames : ∀ left ∈ arrivals, ∀ right ∈ arrivals, left.filename = right.filename →
      left = right) :
    (splitMovedBy order departures arrivals libraryRoot out).moved.Nodup := by
  unfold splitMovedBy
  dsimp only
  refine List.Nodup.map_on (fun left leftMem right rightMem same => ?_)
    (match_moved_files_nodup (List.Nodup.of_map _ (List.nodup_zipIdx_map_snd departures))
      (List.Nodup.of_map _ (List.nodup_zipIdx_map_snd arrivals)))
  obtain ⟨leftRow, leftEntry, _⟩ := (mem_pairs rowsNodup entriesNodup left).mp leftMem
  obtain ⟨rightRow, rightEntry, _⟩ := (mem_pairs rowsNodup entriesNodup right).mp rightMem
  rw [MovedFile.mk.injEq] at same
  have sameRow := uuids _ (mem_of_mem_zip_idx leftRow) _ (mem_of_mem_zip_idx rightRow) same.1
  have sameEntry := filenames _ (mem_of_mem_zip_idx leftEntry) _
    (mem_of_mem_zip_idx rightEntry) same.2
  exact Prod.ext (same_of_zip_idx rowsNodup leftRow rightRow sameRow)
    (same_of_zip_idx entriesNodup leftEntry rightEntry sameEntry)

omit rowsNodup entriesNodup in
theorem split_new_nodup (filenames : (arrivals.map (·.filename)).Nodup) :
    (splitMovedBy order departures arrivals libraryRoot out).new.Nodup := by
  apply List.Nodup.of_map ParseTarget.filename
  unfold splitMovedBy
  dsimp only
  rw [List.map_map]
  apply List.Nodup.sublist (List.filter_sublist.map _)
  have targets : arrivals.zipIdx.map (ParseTarget.filename ∘ fun entry : Arrival =>
      parseTarget entry.1 libraryRoot) = arrivals.map (·.filename) := by
    conv_rhs => rw [← List.zipIdx_map_fst 0 arrivals, List.map_map]
    rfl
  rw [targets]
  exact filenames

omit rowsNodup entriesNodup in
theorem split_removed_nodup (uuids : (departures.map (·.uuid)).Nodup) :
    (splitMovedBy order departures arrivals libraryRoot out).removed.Nodup := by
  unfold splitMovedBy
  dsimp only
  apply List.Nodup.sublist (List.filter_sublist.map _)
  have rows : departures.zipIdx.map (fun row : Departure => row.1.uuid) =
      departures.map (·.uuid) := by
    conv_rhs => rw [← List.zipIdx_map_fst 0 departures, List.map_map]
    rfl
  rw [rows]
  exact uuids

end Split

section Diff

theorem arrived_files_iff (entry : StatEntry) : entry ∈ arrivedFiles disk db ↔
    entry ∈ disk ∧ entry.scanKey ≠ "" ∧ ∀ row ∈ db, row.scanKey ≠ entry.scanKey := by
  simp only [arrivedFiles, List.mem_filter, Bool.and_eq_true, decide_eq_true_eq,
    Bool.not_eq_true', List.any_eq_false]

theorem mem_departures (row : IndexedRow) : row ∈ collectDepartures db disk trustworthy ↔
    row ∈ db ∧ Vanished disk trustworthy row := by
  unfold collectDepartures Vanished
  cases trustworthy with
  | false => simp
  | true => simp [and_assoc, and_left_comm]

theorem departed_mem {row : IndexedRow}
    (departed : row ∈ collectDepartures db disk trustworthy) : row ∈ db := by
  unfold collectDepartures at departed
  split at departed
  · exact absurd departed List.not_mem_nil
  · exact List.mem_of_mem_filter departed

theorem arrived_congr {disk' : List StatEntry} {db' : List IndexedRow}
    (diskPerm : disk'.Perm disk) (dbPerm : db'.Perm db) (entry : StatEntry) :
    entry ∈ arrivedFiles disk' db' ↔ entry ∈ arrivedFiles disk db := by
  simp only [arrived_files_iff, diskPerm.mem_iff, dbPerm.mem_iff]

theorem departures_congr {disk' : List StatEntry} {db' : List IndexedRow}
    (diskPerm : disk'.Perm disk) (dbPerm : db'.Perm db) (row : IndexedRow) :
    row ∈ collectDepartures db' disk' trustworthy ↔
      row ∈ collectDepartures db disk trustworthy := by
  unfold collectDepartures
  split
  · exact Iff.rfl
  · simp only [List.mem_filter, dbPerm.mem_iff, Bool.and_eq_true, Bool.not_eq_true',
      List.any_eq_false, diskPerm.mem_iff]

variable (one : OnePath disk db)
include one

theorem split_contents : Contents (splitMovedBy order (collectDepartures db disk trustworthy)
    (classifiedFiles db libraryRoot (walkedFiles order disk)).2 libraryRoot
    (classifiedFiles db libraryRoot (walkedFiles order disk)).1) disk db libraryRoot
    trustworthy := by
  have departuresUuids : ((collectDepartures db disk trustworthy).map (·.uuid)).Nodup := by
    unfold collectDepartures
    split
    · exact List.nodup_nil
    · exact one.uuids.sublist (List.filter_sublist.map _)
  have departuresNodup := List.Nodup.of_map _ departuresUuids
  have arrivalsNodup : (classifiedFiles db libraryRoot (walkedFiles order disk)).2.Nodup :=
    (walked_files_perm.nodup_iff.mpr keyed_disk_nodup).filter _
  have sameArrivals (entry : StatEntry) : entry ∈
      (classifiedFiles db libraryRoot (walkedFiles order disk)).2 ↔ entry ∈ arrivedFiles disk db :=
    mem_arrivals one entry
  have relocated (row : IndexedRow) (entry : StatEntry) :
      Matched (fun row => row) (fun entry => entry) (collectDepartures db disk trustworthy)
          (classifiedFiles db libraryRoot (walkedFiles order disk)).2 row entry ↔
        Relocated disk db trustworthy row entry :=
    matched_congr (fun _ => Iff.rfl) sameArrivals row entry
  constructor
  · exact mem_filter_map_files one (fun entry row => row.isUnchanged entry) fun _ row => row.uuid
  · exact mem_filter_map_files one (fun entry row => row.isChanged entry) fun entry _ =>
      parseTarget entry libraryRoot
  · exact mem_filter_map_files one (fun _ row => row.isBackfill) fun entry row =>
      (row.uuid, entry.mtimeEpoch, entry.sizeBytes)
  · intro target
    rw [mem_split_new departuresNodup arrivalsNodup]
    simp only [relocated]
    exact exists_congr fun entry => and_congr_left fun _ => sameArrivals entry
  · intro move
    rw [mem_split_moved departuresNodup arrivalsNodup]
    simp only [relocated]
  · intro uuid
    rw [mem_split_removed departuresNodup arrivalsNodup]
    simp only [relocated]
  · have filenames : ∀ left ∈ (classifiedFiles db libraryRoot (walkedFiles order disk)).2,
        ∀ right ∈ (classifiedFiles db libraryRoot (walkedFiles order disk)).2,
          left.filename = right.filename → left = right := fun left leftMem right rightMem =>
      arrived_apart one ((sameArrivals left).mp leftMem) ((sameArrivals right).mp rightMem)
    have rowDrawn {test : IndexedRow → Bool} {entry : StatEntry} {row : IndexedRow}
        (found : rowFor db entry test = some row) : row ∈ db ∧ row.scanKey = entry.scanKey :=
      ⟨((row_for_iff one).mp found).1, ((row_for_iff one).mp found).2.1.1⟩
    refine ⟨?_, ?_, ?_, ?_, ?_, ?_⟩
    · apply filter_map_files_nodup
      intro left _ right _ uuid isLeft isRight
      obtain ⟨row, found, rfl⟩ := Option.map_eq_some_iff.mp isLeft
      obtain ⟨other, foundOther, same⟩ := Option.map_eq_some_iff.mp isRight
      have sameRow := row_of_uuid one (rowDrawn foundOther).1 (rowDrawn found).1 same
      rw [← (rowDrawn found).2, ← (rowDrawn foundOther).2, sameRow]
    · apply split_new_nodup
      exact List.Nodup.map_on (fun left leftMem right rightMem => filenames left leftMem right
        rightMem) arrivalsNodup
    · apply filter_map_files_nodup
      intro left leftMem right rightMem target isLeft isRight
      obtain ⟨_, found, rfl⟩ := Option.map_eq_some_iff.mp isLeft
      obtain ⟨_, foundOther, same⟩ := Option.map_eq_some_iff.mp isRight
      obtain ⟨leftDisk, leftKey⟩ := (mem_walked_files one left).mp leftMem
      obtain ⟨rightDisk, rightKey⟩ := (mem_walked_files one right).mp rightMem
      rw [← one.named left leftDisk leftKey, ← one.named right rightDisk rightKey]
      exact (congrArg ParseTarget.filename same).symm
    · exact split_moved_nodup departuresNodup arrivalsNodup (fun left leftMem right rightMem =>
        row_of_uuid one (departed_mem leftMem) (departed_mem rightMem)) filenames
    · exact split_removed_nodup departuresUuids
    · apply filter_map_files_nodup
      intro left _ right _ item isLeft isRight
      obtain ⟨row, found, rfl⟩ := Option.map_eq_some_iff.mp isLeft
      obtain ⟨other, foundOther, same⟩ := Option.map_eq_some_iff.mp isRight
      have sameRow := row_of_uuid one (rowDrawn foundOther).1 (rowDrawn found).1
        (congrArg Prod.fst same)
      rw [← (rowDrawn found).2, ← (rowDrawn foundOther).2, sameRow]

omit one in
theorem sort_contents {diff : ReindexDiff}
    (contents : Contents diff disk db libraryRoot trustworthy) :
    Contents (sortBuckets diff) disk db libraryRoot trustworthy := by
  obtain ⟨unchanged, changed, backfill, new, moved, removed, once⟩ := contents
  constructor
  · intro uuid
    rw [← unchanged]
    exact List.mem_insertionSort _
  · intro target
    rw [← changed]
    exact List.mem_insertionSort _
  · intro item
    rw [← backfill]
    exact List.mem_insertionSort _
  · intro target
    rw [← new]
    exact List.mem_insertionSort _
  · intro move
    rw [← moved]
    exact List.mem_insertionSort _
  · intro uuid
    rw [← removed]
    exact List.mem_insertionSort _
  · exact ⟨(List.perm_insertionSort _ _).nodup_iff.mpr once.1,
      (List.perm_insertionSort _ _).nodup_iff.mpr once.2.1,
      (List.perm_insertionSort _ _).nodup_iff.mpr once.2.2.1,
      (List.perm_insertionSort _ _).nodup_iff.mpr once.2.2.2.1,
      (List.perm_insertionSort _ _).nodup_iff.mpr once.2.2.2.2.1,
      (List.perm_insertionSort _ _).nodup_iff.mpr once.2.2.2.2.2⟩

theorem diff_contents : Contents (diffLibraryBy order disk db libraryRoot trustworthy) disk db
    libraryRoot trustworthy := by
  have classified : classifyArrivalsBy order disk db libraryRoot =
      classifiedFiles db libraryRoot (walkedFiles order disk) := classify_fold ..
  unfold diffLibraryBy
  rw [classified]
  exact sort_contents (split_contents one)

end Diff

section Sorted

theorem insertion_sort_eq {Item : Type} {before : Item → Item → Prop} [DecidableRel before]
    [Std.Total before] [IsTrans Item before] {left right : List Item} (leftNodup : left.Nodup)
    (rightNodup : right.Nodup) (same : ∀ item, item ∈ left ↔ item ∈ right)
    (apart : ∀ first ∈ left, ∀ second ∈ left, before first second → before second first →
      first = second) : left.insertionSort before = right.insertionSort before := by
  refine List.Perm.eq_of_pairwise ?_ (List.pairwise_insertionSort before _)
    (List.pairwise_insertionSort before _) ?_
  · intro first second firstMem secondMem
    rw [List.mem_insertionSort] at firstMem secondMem
    exact apart first firstMem second ((same second).mpr secondMem)
  · exact (List.perm_insertionSort _ _).trans (((List.perm_ext_iff_of_nodup leftNodup
      rightNodup).mpr same).trans (List.perm_insertionSort _ _).symm)

instance : Std.Total fun left right : MovedFile =>
    left.filename < right.filename ∨ left.filename = right.filename ∧ left.uuid ≤ right.uuid where
  total left right := by
    rcases lt_trichotomy left.filename right.filename with less | same | greater
    · exact .inl (.inl less)
    · rcases le_total left.uuid right.uuid with le | ge
      · exact .inl (.inr ⟨same, le⟩)
      · exact .inr (.inr ⟨same.symm, ge⟩)
    · exact .inr (.inl greater)

instance : IsTrans MovedFile fun left right =>
    left.filename < right.filename ∨ left.filename = right.filename ∧ left.uuid ≤ right.uuid where
  trans first second third one two := by
    rcases one with less | ⟨same, le⟩
    · rcases two with less' | ⟨same', _⟩
      · exact .inl (less.trans less')
      · exact .inl (same' ▸ less)
    · rcases two with less' | ⟨same', le'⟩
      · exact .inl (same ▸ less')
      · exact .inr ⟨same.trans same', le.trans le'⟩

theorem sort_buckets_eq (one : OnePath disk db) {diff other : ReindexDiff}
    (contents : Contents diff disk db libraryRoot trustworthy)
    (otherContents : Contents other disk db libraryRoot trustworthy) :
    sortBuckets diff = sortBuckets other := by
  have filenames {left right : StatEntry} (leftMem : left ∈ disk) (leftKey : left.scanKey ≠ "")
      (rightMem : right ∈ disk) (rightKey : right.scanKey ≠ "")
      (same : left.filename = right.filename) : left = right := by
    rw [one.named left leftMem leftKey, one.named right rightMem rightKey] at same
    exact entry_of_key one leftMem rightMem leftKey same
  unfold sortBuckets
  rw [ReindexDiff.mk.injEq]
  refine ⟨?_, ?_, ?_, ?_, ?_, ?_⟩
  · exact insertion_sort_eq contents.once.1 otherContents.once.1
      (fun uuid => (contents.unchanged uuid).trans (otherContents.unchanged uuid).symm)
      fun _ _ _ _ => le_antisymm
  · refine insertion_sort_eq contents.once.2.1 otherContents.once.2.1
      (fun target => (contents.new target).trans (otherContents.new target).symm) ?_
    intro first firstMem second secondMem le ge
    obtain ⟨left, leftMem, _, rfl⟩ := (contents.new first).mp firstMem
    obtain ⟨right, rightMem, _, rfl⟩ := (contents.new second).mp secondMem
    rw [arrived_apart one leftMem rightMem (le_antisymm le ge)]
  · refine insertion_sort_eq contents.once.2.2.1 otherContents.once.2.2.1
      (fun target => (contents.changed target).trans (otherContents.changed target).symm) ?_
    intro first firstMem second secondMem le ge
    obtain ⟨_, _, left, leftMem, leftAnswers, _, rfl⟩ := (contents.changed first).mp firstMem
    obtain ⟨_, _, right, rightMem, rightAnswers, _, rfl⟩ := (contents.changed second).mp secondMem
    rw [filenames leftMem leftAnswers.2 rightMem rightAnswers.2 (le_antisymm le ge)]
  · refine insertion_sort_eq contents.once.2.2.2.1 otherContents.once.2.2.2.1
      (fun move => (contents.moved move).trans (otherContents.moved move).symm) ?_
    intro first _ second _ le ge
    rcases le with less | ⟨same, le⟩
    · rcases ge with greater | ⟨same, _⟩
      · exact absurd greater (lt_asymm less)
      · exact absurd same.symm (ne_of_lt less)
    · rcases ge with greater | ⟨_, ge⟩
      · exact absurd same.symm (ne_of_lt greater)
      · cases first
        cases second
        rw [MovedFile.mk.injEq]
        exact ⟨le_antisymm le ge, same⟩
  · exact insertion_sort_eq contents.once.2.2.2.2.1 otherContents.once.2.2.2.2.1
      (fun uuid => (contents.removed uuid).trans (otherContents.removed uuid).symm)
      fun _ _ _ _ => le_antisymm
  · refine insertion_sort_eq contents.once.2.2.2.2.2 otherContents.once.2.2.2.2.2
      (fun item => (contents.backfill item).trans (otherContents.backfill item).symm) ?_
    intro first firstMem second secondMem le ge
    obtain ⟨row, rowMem, left, leftMem, leftAnswers, _, rfl⟩ :=
      (contents.backfill first).mp firstMem
    obtain ⟨other, otherMem, right, rightMem, rightAnswers, _, rfl⟩ :=
      (contents.backfill second).mp secondMem
    have sameRow := row_of_uuid one rowMem otherMem (le_antisymm le ge)
    rw [sameRow, entry_of_key one leftMem rightMem leftAnswers.2
      (leftAnswers.1.symm.trans ((congrArg IndexedRow.scanKey sameRow).trans rightAnswers.1))]

theorem relocated_congr {disk' : List StatEntry} {db' : List IndexedRow}
    (diskPerm : disk'.Perm disk) (dbPerm : db'.Perm db) (row : IndexedRow) (entry : StatEntry) :
    Relocated disk' db' trustworthy row entry ↔ Relocated disk db trustworthy row entry := by
  apply matched_congr
  · exact departures_congr diskPerm dbPerm
  · exact arrived_congr diskPerm dbPerm

theorem contents_congr {disk' : List StatEntry} {db' : List IndexedRow}
    (diskPerm : disk'.Perm disk) (dbPerm : db'.Perm db) {diff : ReindexDiff}
    (contents : Contents diff disk' db' libraryRoot trustworthy) :
    Contents diff disk db libraryRoot trustworthy := by
  obtain ⟨unchanged, changed, backfill, new, moved, removed, once⟩ := contents
  simp only [diskPerm.mem_iff, dbPerm.mem_iff, relocated_congr diskPerm dbPerm,
    arrived_congr diskPerm dbPerm, departures_congr diskPerm dbPerm] at *
  exact ⟨unchanged, changed, backfill, new, moved, removed, once⟩

theorem OnePath.perm {disk' : List StatEntry} {db' : List IndexedRow}
    (diskPerm : disk'.Perm disk) (dbPerm : db'.Perm db) (one : OnePath disk db) :
    OnePath disk' db' where
  keys := ((diskPerm.filter _).map _).nodup_iff.mpr one.keys
  named entry member := one.named entry (diskPerm.mem_iff.mp member)
  rowKeys := ((dbPerm.filter _).map _).nodup_iff.mpr one.rowKeys
  uuids := (dbPerm.map _).nodup_iff.mpr one.uuids

end Sorted

section Verdicts

variable (one : OnePath disk db) {diff : ReindexDiff}
  (contents : Contents diff disk db libraryRoot trustworthy) {entry : StatEntry}
include one contents

theorem moves_row_iff {row : IndexedRow} (member : row ∈ db) :
    diff.MovesRow row ↔ ∃ entry, Relocated disk db trustworthy row entry := by
  constructor
  · intro ⟨move, moved, same⟩
    obtain ⟨other, entry, relocated, rfl⟩ := (contents.moved move).mp moved
    rw [row_of_uuid one (departed_mem relocated.departed) member same] at relocated
    exact ⟨entry, relocated⟩
  · intro ⟨entry, relocated⟩
    exact ⟨_, (contents.moved _).mpr ⟨row, entry, relocated, rfl⟩, rfl⟩

theorem removes_row_iff {row : IndexedRow} (member : row ∈ db) :
    row.uuid ∈ diff.removed ↔ Vanished disk trustworthy row ∧
      ∀ entry, ¬Relocated disk db trustworthy row entry := by
  rw [contents.removed]
  simp only [mem_departures]
  constructor
  · intro ⟨other, ⟨otherMem, gone⟩, apart, same⟩
    rw [row_of_uuid one otherMem member same] at gone apart
    exact ⟨gone, apart⟩
  · intro ⟨gone, apart⟩
    exact ⟨row, ⟨member, gone⟩, apart, rfl⟩

variable (entryMem : entry ∈ disk) (hasKey : entry.scanKey ≠ "")
include entryMem hasKey

omit contents in
theorem entry_of_filename {other : StatEntry} (otherMem : other ∈ disk)
    (otherKey : other.scanKey ≠ "") (same : other.filename = entry.filename) : other = entry := by
  rw [one.named other otherMem otherKey, one.named entry entryMem hasKey] at same
  exact entry_of_key one otherMem entryMem otherKey same

theorem holds_iff (bucket : Bucket) : diff.Holds db entry bucket ↔
    match bucket with
    | .unchanged => ∃ row ∈ db, row.Answers entry ∧ row.isUnchanged entry = true
    | .new => entry ∈ arrivedFiles disk db ∧ ∀ row, ¬Relocated disk db trustworthy row entry
    | .changed => ∃ row ∈ db, row.Answers entry ∧ row.isChanged entry = true
    | .moved => ∃ row, Relocated disk db trustworthy row entry
    | .backfill => ∃ row ∈ db, row.Answers entry ∧ row.isBackfill = true := by
  have named {other : StatEntry} (otherMem : other ∈ disk) (otherKey : other.scanKey ≠ "")
      (same : other.filename = entry.filename) : other = entry :=
    entry_of_filename one entryMem hasKey otherMem otherKey same
  cases bucket with
  | unchanged =>
      constructor
      · intro ⟨row, rowMem, same, held⟩
        obtain ⟨other, otherMem, file, fileMem, answers, verdict, sameUuid⟩ :=
          (contents.unchanged _).mp held
        have sameRow := row_of_uuid one otherMem rowMem sameUuid
        rw [sameRow] at answers verdict
        rw [entry_of_key one fileMem entryMem answers.2 (answers.1.symm.trans same)] at verdict
        exact ⟨row, rowMem, ⟨same, hasKey⟩, verdict⟩
      · intro ⟨row, rowMem, answers, verdict⟩
        exact ⟨row, rowMem, answers.1, (contents.unchanged _).mpr
          ⟨row, rowMem, entry, entryMem, answers, verdict, rfl⟩⟩
  | new =>
      constructor
      · intro ⟨target, held, same⟩
        obtain ⟨file, arrived, apart, rfl⟩ := (contents.new _).mp held
        obtain ⟨fileMem, fileKey, _⟩ := (arrived_files_iff file).mp arrived
        rw [named fileMem fileKey same] at arrived apart
        exact ⟨arrived, apart⟩
      · intro ⟨arrived, apart⟩
        exact ⟨_, (contents.new _).mpr ⟨entry, arrived, apart, rfl⟩, rfl⟩
  | changed =>
      constructor
      · intro ⟨target, held, same⟩
        obtain ⟨row, rowMem, file, fileMem, answers, verdict, rfl⟩ := (contents.changed _).mp held
        have isEntry : file = entry := named fileMem answers.2 same
        rw [isEntry] at answers verdict
        exact ⟨row, rowMem, answers, verdict⟩
      · intro ⟨row, rowMem, answers, verdict⟩
        exact ⟨_, (contents.changed _).mpr ⟨row, rowMem, entry, entryMem, answers, verdict, rfl⟩,
          rfl⟩
  | moved =>
      constructor
      · intro ⟨move, held, same⟩
        obtain ⟨row, file, relocated, rfl⟩ := (contents.moved _).mp held
        obtain ⟨fileMem, fileKey, _⟩ := (arrived_files_iff file).mp relocated.arrived
        rw [named fileMem fileKey same] at relocated
        exact ⟨row, relocated⟩
      · intro ⟨row, relocated⟩
        exact ⟨_, (contents.moved _).mpr ⟨row, entry, relocated, rfl⟩, rfl⟩
  | backfill =>
      constructor
      · intro ⟨row, rowMem, same, item, held, sameUuid⟩
        obtain ⟨other, otherMem, file, fileMem, answers, verdict, rfl⟩ :=
          (contents.backfill _).mp held
        rw [row_of_uuid one otherMem rowMem sameUuid] at verdict
        exact ⟨row, rowMem, ⟨same, hasKey⟩, verdict⟩
      · intro ⟨row, rowMem, answers, verdict⟩
        exact ⟨row, rowMem, answers.1, _, (contents.backfill _).mpr
          ⟨row, rowMem, entry, entryMem, answers, verdict, rfl⟩, rfl⟩

theorem answered_once {row : IndexedRow} (rowMem : row ∈ db) (answers : row.Answers entry) :
    ∃! bucket, diff.Holds db entry bucket := by
  have holds := holds_iff one contents entryMem hasKey
  have noArrival : entry ∉ arrivedFiles disk db := fun arrived =>
    ((arrived_files_iff entry).mp arrived).2.2 row rowMem answers.1
  have noMove : ¬diff.Holds db entry .moved := fun held => by
    obtain ⟨_, relocated⟩ := (holds .moved).mp held
    exact noArrival relocated.arrived
  have noNew : ¬diff.Holds db entry .new := fun held => noArrival ((holds .new).mp held).1
  -- no other row answers the file
  have lacks {verdict : IndexedRow → Bool} (other : verdict row = false) :
      ¬∃ row ∈ db, row.Answers entry ∧ verdict row = true := by
    intro ⟨given, givenMem, givenAnswers, isGiven⟩
    have same : given = row := List.inj_on_of_nodup_map one.rowKeys
      (List.mem_filter.mpr ⟨givenMem, decide_eq_true (givenAnswers.1.trans_ne hasKey)⟩)
      (List.mem_filter.mpr ⟨rowMem, decide_eq_true (answers.1.trans_ne hasKey)⟩)
      (givenAnswers.1.trans answers.1.symm)
    rw [same, other] at isGiven
    cases isGiven
  rcases verdict_cases row entry with ⟨unchanged, changed, backfill⟩ | ⟨unchanged, changed, backfill⟩ |
    ⟨unchanged, changed, backfill⟩
  · refine ⟨.unchanged, (holds .unchanged).mpr ⟨row, rowMem, answers, unchanged⟩,
      fun other held => ?_⟩
    cases other with
    | unchanged => rfl
    | new => exact absurd held noNew
    | changed => exact absurd ((holds .changed).mp held) (lacks changed)
    | moved => exact absurd held noMove
    | backfill => exact absurd ((holds .backfill).mp held) (lacks backfill)
  · refine ⟨.changed, (holds .changed).mpr ⟨row, rowMem, answers, changed⟩, fun other held => ?_⟩
    cases other with
    | unchanged => exact absurd ((holds .unchanged).mp held) (lacks unchanged)
    | new => exact absurd held noNew
    | changed => rfl
    | moved => exact absurd held noMove
    | backfill => exact absurd ((holds .backfill).mp held) (lacks backfill)
  · refine ⟨.backfill, (holds .backfill).mpr ⟨row, rowMem, answers, backfill⟩,
      fun other held => ?_⟩
    cases other with
    | unchanged => exact absurd ((holds .unchanged).mp held) (lacks unchanged)
    | new => exact absurd held noNew
    | changed => exact absurd ((holds .changed).mp held) (lacks changed)
    | moved => exact absurd held noMove
    | backfill => rfl

theorem arrived_once (unanswered : ¬∃ row ∈ db, row.Answers entry) :
    ∃! bucket, diff.Holds db entry bucket := by
  have holds := holds_iff one contents entryMem hasKey
  have arrived : entry ∈ arrivedFiles disk db := (arrived_files_iff entry).mpr
    ⟨entryMem, hasKey, fun row rowMem same => unanswered ⟨row, rowMem, same, hasKey⟩⟩
  have noRow {verdict : IndexedRow → Bool} (given : ∃ row ∈ db, row.Answers entry ∧
      verdict row = true) : False := by
    obtain ⟨row, rowMem, answers, _⟩ := given
    exact unanswered ⟨row, rowMem, answers⟩
  by_cases moves : ∃ row, Relocated disk db trustworthy row entry
  · refine ⟨.moved, (holds .moved).mpr moves, fun other held => ?_⟩
    cases other with
    | unchanged => exact (noRow ((holds .unchanged).mp held)).elim
    | new =>
        obtain ⟨row, relocated⟩ := moves
        exact absurd relocated (((holds .new).mp held).2 row)
    | changed => exact (noRow ((holds .changed).mp held)).elim
    | moved => rfl
    | backfill => exact (noRow ((holds .backfill).mp held)).elim
  · refine ⟨.new, (holds .new).mpr ⟨arrived, fun row relocated => moves ⟨row, relocated⟩⟩,
      fun other held => ?_⟩
    cases other with
    | unchanged => exact (noRow ((holds .unchanged).mp held)).elim
    | new => rfl
    | changed => exact (noRow ((holds .changed).mp held)).elim
    | moved => exact absurd ((holds .moved).mp held) moves
    | backfill => exact (noRow ((holds .backfill).mp held)).elim

omit entryMem hasKey in
theorem contents_partition : Partitions diff disk db trustworthy where
  files entry entryMem hasKey := by
    by_cases answered : ∃ row ∈ db, row.Answers entry
    · obtain ⟨row, rowMem, answers⟩ := answered
      exact answered_once one contents entryMem hasKey rowMem answers
    · exact arrived_once one contents entryMem hasKey answered
  vanished row rowMem gone := by
    rw [moves_row_iff one contents rowMem, removes_row_iff one contents rowMem]
    by_cases moves : ∃ entry, Relocated disk db trustworthy row entry
    · refine ⟨.inl moves, fun both => ?_⟩
      obtain ⟨entry, relocated⟩ := moves
      exact both.2.2 entry relocated
    · exact ⟨.inr ⟨gone, fun entry relocated => moves ⟨entry, relocated⟩⟩, fun both => moves both.1⟩
  others row rowMem present := by
    rw [moves_row_iff one contents rowMem, removes_row_iff one contents rowMem]
    refine ⟨fun ⟨entry, relocated⟩ => ?_, fun removed => present removed.1⟩
    exact present ((mem_departures row).mp relocated.departed).2
  moves row rowMem entry entryMem hasKey := by
    constructor
    · intro moved
      obtain ⟨other, file, relocated, same⟩ := (contents.moved _).mp moved
      rw [MovedFile.mk.injEq] at same
      obtain ⟨fileMem, fileKey, _⟩ := (arrived_files_iff file).mp relocated.arrived
      rw [row_of_uuid one (departed_mem relocated.departed) rowMem same.1,
        entry_of_filename one entryMem hasKey fileMem fileKey same.2] at relocated
      exact relocated
    · intro relocated
      exact (contents.moved _).mpr ⟨row, entry, relocated, rfl⟩
  once := contents.once

end Verdicts

/-- The diff puts every file in one bucket, the same under every order. -/
theorem diff_partitions (order order' : Iteration) (disk disk' : List StatEntry)
    (db db' : List IndexedRow) (libraryRoot : String) (trustworthy : Bool)
    (one : OnePath disk db) (diskPerm : disk'.Perm disk) (dbPerm : db'.Perm db) :
    diffLibraryBy order' disk' db' libraryRoot trustworthy =
        diffLibraryBy order disk db libraryRoot trustworthy ∧
      Partitions (diffLibraryBy order disk db libraryRoot trustworthy) disk db trustworthy := by
  constructor
  · have classified (order : Iteration) (disk : List StatEntry) (db : List IndexedRow) :
        classifyArrivalsBy order disk db libraryRoot =
          classifiedFiles db libraryRoot (walkedFiles order disk) := classify_fold ..
    unfold diffLibraryBy
    rw [classified, classified]
    exact sort_buckets_eq one
      (contents_congr diskPerm dbPerm (split_contents (one.perm diskPerm dbPerm)))
      (split_contents one)
  · exact contents_partition one (diff_contents one)

section Example

def Iteration.reversed : Iteration := ⟨List.reverse, List.reverse_perm⟩

def movedListing : List StatEntry := [⟨"b/x.epub", "b/x.epub", 5, 9⟩, ⟨"y.epub", "y.epub", 6, 7⟩]

theorem moved_listing_partitions : diffLibraryBy .reversed movedListing.reverse
      [⟨"u", "a/x.epub", true, 5, 9⟩] "/books" true =
        diffLibraryBy .inserted movedListing [⟨"u", "a/x.epub", true, 5, 9⟩] "/books" true ∧
      Partitions (diffLibraryBy .inserted movedListing [⟨"u", "a/x.epub", true, 5, 9⟩] "/books"
        true) movedListing [⟨"u", "a/x.epub", true, 5, 9⟩] true :=
  diff_partitions .inserted .reversed movedListing movedListing.reverse _ _ "/books" true
    (by constructor <;> decide) (List.reverse_perm _) (.refl _)

end Example

end Omnibus.Scan
