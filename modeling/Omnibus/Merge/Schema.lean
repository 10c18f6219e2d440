import Omnibus.Library.Sql

/-!
# The tables a merge retargets

The columns, keys and references of the tables that name a book by its durable uuid, as
the migrations leave them, and the lists of `merge/transaction.rs` and
`merge/relocation.rs` that say what a merge does with each table.
-/

namespace Omnibus.Merge

open Omnibus.Library.Sql

/-- `RETARGET_TABLES`, in its order. -/
inductive TableName where
  | readingProgress
  | readingProgressMarks
  | readingProgressDaily
  | readingProgressSlots
  | audiobookPlaybackPreferences
  | bookmarks
  | readingSessions
  | listeningSessions
  | annotations
  | annotationTombstones
  | koboAnnotationsSync
  | journalEntries
  | bookReadStatus
  | reviews
  | shelfBooks
  | physicalCopies
  | wishlistEntries
  | crossFormatLinks
  | bookContentChapters
  | bookExportDigests
  | bookRequests
  deriving DecidableEq, Repr

inductive ColumnName where
  | id | userId | bookUuid | format
  | epubCfi | audioPositionSeconds | updatedAt | clientUpdatedAt | bookFileId
  | progressPercent | koboLocation | koboSpentReadingMinutes | koboRemainingTimeMinutes
  | koboStatisticsUpdatedAt | koreaderXpointer | koreaderPercentage
  | sittingMaxPercent | sittingObservedAt
  | day | slot | percentGained
  | playbackRate
  | position | title | createdAt | clientId
  | startedAt | endedAt | secondsRead | secondsListened | deviceId | utcOffsetMinutes | timeZone
  | epubCfiRange | color | note | text | koboLocationStale
  | deletedAt
  | adoptedAt | ackedFingerprint | downloadedAt
  | bodyMd | progress | status
  | finishedAt | autoStarted
  | halfStars | notesMd | spoiler | ratedAt
  | shelfId | addedByUserId | addedAt
  | isbn | checkedInAt
  | source
  | mode | primaryBookFileId | audioSnapshot | confirmedAt | follow | userAnchors
  | spineIndex | mtimeEpoch | sizeBytes
  | partialMd5
  | kind | state | stuckReason | stuckDetail | chosenResultId | clientTag | importKey
  | removeTag | removeSince | movedAt | cancelAt | cancelledBy | priorState
  deriving DecidableEq, Repr

abbrev DbRow := Row ColumnName

abbrev DbTable := Table ColumnName

namespace TableName

/-- `pragma_table_info`. -/
def columns : TableName → List ColumnName
  | readingProgress =>
      [.id, .userId, .bookUuid, .format, .epubCfi, .audioPositionSeconds, .updatedAt,
        .clientUpdatedAt, .bookFileId, .progressPercent, .koboLocation,
        .koboSpentReadingMinutes, .koboRemainingTimeMinutes, .koboStatisticsUpdatedAt,
        .koreaderXpointer, .koreaderPercentage]
  | readingProgressMarks =>
      [.userId, .bookUuid, .format, .sittingMaxPercent, .updatedAt, .sittingObservedAt]
  | readingProgressDaily => [.userId, .bookUuid, .format, .day, .percentGained, .updatedAt]
  | readingProgressSlots => [.userId, .bookUuid, .format, .slot, .percentGained, .updatedAt]
  | audiobookPlaybackPreferences => [.id, .userId, .bookUuid, .playbackRate, .updatedAt]
  | bookmarks => [.id, .userId, .bookUuid, .position, .title, .createdAt, .clientId]
  | readingSessions =>
      [.id, .userId, .bookUuid, .startedAt, .endedAt, .secondsRead, .deviceId, .clientId,
        .utcOffsetMinutes, .timeZone]
  | listeningSessions =>
      [.id, .userId, .bookUuid, .startedAt, .endedAt, .secondsListened, .deviceId, .clientId,
        .utcOffsetMinutes, .timeZone]
  | annotations =>
      [.id, .userId, .bookUuid, .epubCfiRange, .koboLocation, .color, .note, .createdAt, .text,
        .clientId, .updatedAt, .koboLocationStale]
  | annotationTombstones => [.userId, .bookUuid, .clientId, .deletedAt]
  | koboAnnotationsSync =>
      [.deviceId, .bookUuid, .adoptedAt, .ackedFingerprint, .updatedAt, .downloadedAt]
  | journalEntries =>
      [.id, .userId, .bookUuid, .bodyMd, .progress, .createdAt, .updatedAt, .status, .clientId]
  | bookReadStatus => [.id, .userId, .bookUuid, .status, .updatedAt, .finishedAt, .autoStarted]
  | reviews =>
      [.id, .userId, .bookUuid, .halfStars, .bodyMd, .notesMd, .spoiler, .ratedAt, .createdAt,
        .updatedAt]
  | shelfBooks => [.shelfId, .bookUuid, .position, .addedByUserId, .addedAt]
  | physicalCopies => [.id, .bookUuid, .isbn, .addedByUserId, .checkedInAt, .note]
  | wishlistEntries => [.id, .userId, .bookUuid, .addedAt, .source]
  | crossFormatLinks =>
      [.id, .userId, .bookUuid, .mode, .primaryBookFileId, .audioSnapshot, .confirmedAt, .follow,
        .userAnchors]
  | bookContentChapters => [.id, .bookUuid, .spineIndex, .mtimeEpoch, .sizeBytes, .text]
  | bookExportDigests => [.partialMd5, .bookUuid, .createdAt, .bookFileId]
  | bookRequests =>
      [.id, .bookUuid, .userId, .kind, .state, .stuckReason, .stuckDetail, .chosenResultId,
        .clientTag, .importKey, .removeTag, .removeSince, .progress, .movedAt, .cancelAt,
        .cancelledBy, .priorState, .note, .createdAt, .updatedAt]

/-- Whether the table's definition says `AUTOINCREMENT`. -/
def autoincrement : TableName → Bool
  | readingProgressMarks | readingProgressDaily | readingProgressSlots | annotationTombstones
  | koboAnnotationsSync | shelfBooks | bookContentChapters | bookExportDigests => false
  | _ => true

def primaryKey : TableName → List ColumnName
  | readingProgressMarks => [.userId, .bookUuid, .format]
  | readingProgressDaily => [.userId, .bookUuid, .day, .format]
  | readingProgressSlots => [.userId, .bookUuid, .format, .slot]
  | annotationTombstones => [.userId, .clientId]
  | koboAnnotationsSync => [.deviceId, .bookUuid]
  | shelfBooks => [.shelfId, .bookUuid]
  | bookExportDigests => [.partialMd5, .bookUuid]
  | _ => [.id]

/-- The `UNIQUE` constraints and indexes beside the primary key. The partial indexes on
`client_id IS NOT NULL` are keys as they are, since NULL agrees with nothing. -/
def indexes : TableName → List (List ColumnName)
  | readingProgress => [[.userId, .bookUuid, .format]]
  | audiobookPlaybackPreferences | bookReadStatus | reviews | wishlistEntries
  | crossFormatLinks => [[.userId, .bookUuid]]
  | bookmarks | readingSessions | listeningSessions | annotations | journalEntries =>
      [[.userId, .clientId]]
  | bookContentChapters => [[.bookUuid, .spineIndex]]
  | _ => []

def keys (table : TableName) : List (List ColumnName) := table.primaryKey :: table.indexes

/-- The columns declared `REAL`. -/
def realColumns : TableName → List ColumnName
  | readingProgress => [.audioPositionSeconds, .koreaderPercentage]
  | audiobookPlaybackPreferences => [.playbackRate]
  | bookRequests => [.progress]
  | _ => []

end TableName

/-- The parent tables a `FOREIGN KEY` of these tables names. -/
inductive Parent where
  | users
  | devices
  | koboDevices
  | shelves
  deriving DecidableEq, Repr

inductive OnDelete where
  | cascade
  | setNull
  deriving DecidableEq, Repr

structure ForeignKey where
  column : ColumnName
  parent : Parent
  onDelete : OnDelete
  deriving DecidableEq, Repr

/-- `pragma_foreign_key_list`. -/
def TableName.foreignKeys : TableName → List ForeignKey
  | readingSessions | listeningSessions =>
      [⟨.userId, .users, .cascade⟩, ⟨.deviceId, .devices, .setNull⟩]
  | koboAnnotationsSync => [⟨.deviceId, .koboDevices, .cascade⟩]
  | shelfBooks => [⟨.shelfId, .shelves, .cascade⟩, ⟨.addedByUserId, .users, .setNull⟩]
  | physicalCopies => [⟨.addedByUserId, .users, .setNull⟩]
  | bookContentChapters | bookExportDigests => []
  | _ => [⟨.userId, .users, .cascade⟩]

abbrev Uuid := String

structure Db where
  tables : TableName → DbTable
  parents : Parent → List Value

namespace Db

def set (db : Db) (name : TableName) (table : DbTable) : Db :=
  { db with tables := Function.update db.tables name table }

def modify (db : Db) (name : TableName) (change : DbTable → DbTable) : Db :=
  db.set name (change (db.tables name))

def modifyM {Error : Type} (db : Db) (name : TableName)
    (change : DbTable → Except Error DbTable) : Except Error Db :=
  match change (db.tables name) with
  | .ok table => .ok (db.set name table)
  | .error error => .error error

@[simp] theorem set_tables_self (db : Db) (name : TableName) (table : DbTable) :
    (db.set name table).tables name = table := by
  simp [set]

theorem set_tables_of_ne (db : Db) {name other : TableName} (table : DbTable)
    (different : other ≠ name) : (db.set name table).tables other = db.tables other := by
  simp [set, different]

@[simp] theorem set_parents (db : Db) (name : TableName) (table : DbTable) :
    (db.set name table).parents = db.parents := rfl

@[simp] theorem modify_tables_self (db : Db) (name : TableName) (change : DbTable → DbTable) :
    (db.modify name change).tables name = change (db.tables name) := by
  simp [modify]

theorem modify_tables (db : Db) (name other : TableName) (change : DbTable → DbTable) :
    (db.modify name change).tables other =
      if other = name then change (db.tables other) else db.tables other := by
  by_cases same : other = name
  · subst same
    simp
  · simp [modify, set, same]

theorem modify_tables_of_ne (db : Db) {name other : TableName} (change : DbTable → DbTable)
    (different : other ≠ name) : (db.modify name change).tables other = db.tables other :=
  db.set_tables_of_ne _ different

@[simp] theorem modify_parents (db : Db) (name : TableName) (change : DbTable → DbTable) :
    (db.modify name change).parents = db.parents := rfl

theorem modify_all {Error : Type} (names : List TableName) (distinct : names.Nodup) (db : Db)
    (change : (Parent → List Value) → TableName → DbTable → Except Error DbTable)
    (after : TableName → DbTable)
    (succeed : ∀ name ∈ names, change db.parents name (db.tables name) = .ok (after name)) :
    names.foldlM (fun db name => db.modifyM name (change db.parents name)) db = .ok { db with
      tables := fun name => if name ∈ names then after name else db.tables name } := by
  induction names generalizing db with
  | nil => simp only [List.foldlM_nil, List.not_mem_nil, if_false]; rfl
  | cons first rest induction =>
      rw [List.nodup_cons] at distinct
      have stepped : db.modifyM first (change db.parents first) =
          .ok (db.set first (after first)) := by
        simp only [modifyM, succeed first List.mem_cons_self]
      have later : ∀ name ∈ rest,
          change db.parents name ((db.set first (after first)).tables name) = .ok (after name) := by
        intro name member
        have other : name ≠ first := fun same => distinct.1 (same ▸ member)
        rw [set_tables_of_ne _ _ other]
        exact succeed name (List.mem_cons_of_mem _ member)
      rw [List.foldlM_cons, stepped]
      change rest.foldlM _ _ = _
      rw [induction distinct.2 _ later]
      congr 1
      simp only [set_parents, Db.mk.injEq, and_true]
      funext name
      by_cases same : name = first
      · subst same
        simp [distinct.1]
      · simp [same, set_tables_of_ne db _ same]

theorem modify_each (names : List TableName) (distinct : names.Nodup) (db : Db)
    (change : (Parent → List Value) → TableName → DbTable → DbTable) :
    names.foldl (fun db name => db.modify name (change db.parents name)) db = { db with
      tables := fun name =>
        if name ∈ names then change db.parents name (db.tables name) else db.tables name } := by
  induction names generalizing db with
  | nil => simp
  | cons first rest induction =>
      rw [List.nodup_cons] at distinct
      rw [List.foldl_cons, induction distinct.2]
      simp only [modify_parents, Db.mk.injEq, and_true]
      funext name
      by_cases same : name = first
      · subst same
        simp [distinct.1]
      · simp [same, modify_tables_of_ne db _ same]

end Db

structure Sound (name : TableName) (parents : Parent → List Value) (rows : List DbRow) :
    Prop where
  keyed : Keyed name.keys rows
  /-- Primary-key columns and the book are `NOT NULL`. -/
  present : ∀ row ∈ rows, ∀ column ∈ .bookUuid :: name.primaryKey, row column ≠ .null
  referenced : ∀ row ∈ rows, ∀ key ∈ name.foreignKeys,
    row key.column = .null ∨ row key.column ∈ parents key.parent
  numbered : ∀ row ∈ rows, ∀ column ∈ [.id, .userId, .updatedAt],
    column ∈ name.columns → (row column).IsInteger
  counted : ∀ row ∈ rows, .percentGained ∈ name.columns → (row .percentGained).IsCount
  clocked : ∀ row ∈ rows, row .clientUpdatedAt = .null ∨ (row .clientUpdatedAt).IsInteger

instance (name : TableName) (parents : Parent → List Value) (rows : List DbRow) :
    Decidable (Sound name parents rows) :=
  decidable_of_iff
    (Keyed name.keys rows ∧
      (∀ row ∈ rows, ∀ column ∈ .bookUuid :: name.primaryKey, row column ≠ .null) ∧
      (∀ row ∈ rows, ∀ key ∈ name.foreignKeys,
        row key.column = .null ∨ row key.column ∈ parents key.parent) ∧
      (∀ row ∈ rows, ∀ column ∈ [.id, .userId, .updatedAt],
        column ∈ name.columns → (row column).IsInteger) ∧
      (∀ row ∈ rows, .percentGained ∈ name.columns → (row .percentGained).IsCount) ∧
      ∀ row ∈ rows, row .clientUpdatedAt = .null ∨ (row .clientUpdatedAt).IsInteger)
    ⟨fun ⟨keyed, present, referenced, numbered, counted, clocked⟩ =>
      ⟨keyed, present, referenced, numbered, counted, clocked⟩,
      fun sound => ⟨sound.keyed, sound.present, sound.referenced, sound.numbered, sound.counted,
        sound.clocked⟩⟩

/-- What the schema promises of one stored table: a row has no value outside the table's
columns. -/
structure Stored (name : TableName) (parents : Parent → List Value) (table : DbTable) : Prop
    extends Sound name parents table.rows where
  listed : ∀ row ∈ table.rows, ∀ column ∉ name.columns, row column = .null
  rowids : (table.records.map (·.rowid)).Nodup

def Db.Valid (db : Db) : Prop := ∀ name, Stored name db.parents (db.tables name)

/-- A number stands in a REAL column only. -/
def Typed (name : TableName) (rows : List DbRow) : Prop :=
  ∀ row ∈ rows, ∀ column ∉ name.realColumns, ¬(row column).IsReal

def Db.Typed (db : Db) : Prop := ∀ name, Omnibus.Merge.Typed name (db.tables name).rows

section Concrete

def onlyTable (name : TableName) (rows : List DbRow) (parents : Parent → List Value) : Db where
  tables other := if other = name then Table.ofRows rows else Table.ofRows []
  parents := parents

theorem stored_of_entries (name : TableName) (parents : Parent → List Value)
    (entries : List (List (ColumnName × Value)))
    (listed : ∀ row ∈ entries, ∀ entry ∈ row, entry.1 ∈ name.columns)
    (sound : Sound name parents (entries.map Row.of)) :
    Stored name parents (Table.ofRows (entries.map Row.of)) where
  toSound := by rwa [Table.of_rows_rows]
  listed := by
    rw [Table.of_rows_rows]
    intro row member column unlisted
    obtain ⟨entry, entryMem, rfl⟩ := List.mem_map.mp member
    exact Row.of_unlisted entry name.columns (listed entry entryMem) unlisted
  rowids := Table.of_rows_rowids _

theorem only_table_valid (name : TableName) (parents : Parent → List Value)
    (entries : List (List (ColumnName × Value)))
    (listed : ∀ row ∈ entries, ∀ entry ∈ row, entry.1 ∈ name.columns)
    (sound : Sound name parents (entries.map Row.of)) :
    (onlyTable name (entries.map Row.of) parents).Valid := by
  intro other
  by_cases same : other = name
  · subst same
    simpa [onlyTable] using stored_of_entries other parents entries listed sound
  · simp only [onlyTable, if_neg same]
    apply stored_of_entries other parents [] (by simp)
    constructor <;> simp [Keyed]

theorem only_table_typed (name : TableName) (parents : Parent → List Value)
    (entries : List (List (ColumnName × Value)))
    (unreal : ∀ row ∈ entries, ∀ entry ∈ row, entry.1 ∈ name.realColumns ∨ ¬entry.2.IsReal) :
    (onlyTable name (entries.map Row.of) parents).Typed := by
  intro other row member column unlisted isReal
  by_cases same : other = name
  · subst same
    simp only [onlyTable, if_true, Table.of_rows_rows] at member
    obtain ⟨entry, entryMem, rfl⟩ := List.mem_map.mp member
    obtain ⟨number, value⟩ := isReal
    have present : Row.of entry column ≠ .null := by simp [value]
    have stored := Row.of_mem entry present
    rcases unreal entry entryMem _ stored with real | notReal
    · exact unlisted real
    · exact notReal ⟨number, value⟩
  · simp only [onlyTable, if_neg same, Table.of_rows_rows] at member
    cases member

def oneReader : Parent → List Value
  | .users => [.integer 1]
  | _ => []

end Concrete

end Omnibus.Merge
