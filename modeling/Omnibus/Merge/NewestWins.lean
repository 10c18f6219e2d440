import Omnibus.Library.Strings
import Omnibus.Merge.LatestKept

/-!
# The position a merge keeps

`progress/upsert.rs` keeps the position with the later event time. The merge keeps the one
with the later receipt time, so it leaves the newest position exactly where the two clocks
order the two rows alike.
-/

namespace Omnibus.Merge

open Omnibus.Library.Sql

/-- The values `execute_upsert_query` binds. -/
structure ProgressUpdate where
  userId : Int
  bookUuid : Uuid
  format : String
  epubCfi : Option String
  audioPositionSeconds : Option Rat
  progressPercent : Option Int
  koboLocation : Option String
  bookFileId : Option Int
  koreaderXpointer : Option String
  koreaderPercentage : Option Rat
  clientUpdatedAt : Option Int
  deriving DecidableEq, Repr

namespace Column

def ofReal : Option Rat → Value
  | some number => .real number
  | none => .null

/-- Blank text is bound as NULL. -/
def ofSolidText (content : Option String) : Value :=
  ofText (content.filter fun content => !content.toList.all Library.Strings.isWhitespace)

end Column

/-- `COALESCE(client_updated_at, updated_at)`. -/
def eventTime (row : DbRow) : Value := (row .clientUpdatedAt).coalesce (row .updatedAt)

/-- `excluded.client_updated_at >= COALESCE(client_updated_at, updated_at)`. -/
def newestWins (stored excluded : DbRow) : Bool :=
  (eventTime stored).atMost (excluded .clientUpdatedAt)

/-- A fileless audio write over a file-naming row of a book with several audio files. -/
def filelessAudio (audioFiles : Uuid → Nat) (book : Uuid) (stored excluded : DbRow) : Bool :=
  excluded .format = .text "audio" && excluded .bookFileId = .null &&
    stored .bookFileId ≠ .null && 1 < audioFiles book

namespace ProgressUpdate

/-- The row the `INSERT` offers; a client clock ahead of the server's is clamped to it. -/
def excluded (update : ProgressUpdate) (now id : Int) : DbRow :=
  Row.of
    [(.id, .integer id), (.userId, .integer update.userId), (.bookUuid, .text update.bookUuid),
      (.format, .text update.format), (.epubCfi, Column.ofSolidText update.epubCfi),
      (.audioPositionSeconds, Column.ofReal update.audioPositionSeconds),
      (.progressPercent, Column.ofInteger update.progressPercent),
      (.koboLocation, Column.ofSolidText update.koboLocation),
      (.bookFileId, Column.ofInteger update.bookFileId),
      (.koreaderXpointer, Column.ofText update.koreaderXpointer),
      (.koreaderPercentage, Column.ofReal update.koreaderPercentage),
      (.updatedAt, .integer now),
      (.clientUpdatedAt, .integer (min (update.clientUpdatedAt.getD now) now))]

/-- The columns `DO UPDATE SET` takes from the offered row. -/
def assigned : List ColumnName :=
  [.epubCfi, .audioPositionSeconds, .progressPercent, .koboLocation, .bookFileId,
    .koreaderXpointer, .koreaderPercentage, .updatedAt, .clientUpdatedAt]

def assign (stored excluded : DbRow) : DbRow := fun column =>
  if column ∈ assigned then excluded column else stored column

/-- `execute_upsert_query`. -/
def execute (update : ProgressUpdate) (audioFiles : Uuid → Nat) (now : Int) (table : DbTable) :
    DbTable :=
  let id := table.nextRowid true
  let excluded := update.excluded now id
  if table.conflicts [[.userId, .bookUuid, .format]] excluded then
    table.update
      (fun stored => agree [.userId, .bookUuid, .format] stored excluded &&
        newestWins stored excluded &&
        !filelessAudio audioFiles update.bookUuid stored excluded)
      fun stored => assign stored excluded
  else table.append id excluded

theorem execute_over_stored (update : ProgressUpdate) (audioFiles : Uuid → Nat) (now : Int)
    (table : DbTable) {stored : DbRow} (member : stored ∈ table.rows)
    (agreed : agree [.userId, .bookUuid, .format] stored
      (update.excluded now (table.nextRowid true)) = true) :
    update.execute audioFiles now table = table.update
      (fun row => agree [.userId, .bookUuid, .format] row
          (update.excluded now (table.nextRowid true)) &&
        newestWins row (update.excluded now (table.nextRowid true)) &&
        !filelessAudio audioFiles update.bookUuid row
          (update.excluded now (table.nextRowid true)))
      fun row => assign row (update.excluded now (table.nextRowid true)) := by
  apply if_pos
  simp only [Table.conflicts, List.any_eq_true, List.mem_singleton]
  exact ⟨stored, member, _, rfl, agreed⟩

end ProgressUpdate

/-- The row that stands after `offered`, taken at its event time, is written over `stored`. -/
def writeOver (stored offered : DbRow) : DbRow :=
  if newestWins stored (Function.update offered .clientUpdatedAt (eventTime offered)) then offered
  else stored

/-- The rows a book holds for the reader and format of `row`. -/
def heldFor (book : Uuid) (row : DbRow) (db : Db) : List DbRow :=
  (db.tables .readingProgress).rows.filter fun other =>
    onBook book other && agree [.userId, .format] other row

/-- The merge leaves the target the one row the write path leaves, in either order. -/
def LeavesNewest (source target : Uuid) (now : Int) (db : Db) (sourceRow targetRow : DbRow) :
    Prop :=
  ∃ merged, moveProgressAndHistory source target now db = .ok merged ∧
    heldFor target targetRow merged =
      [Function.update (writeOver sourceRow targetRow) .bookUuid (.text target)] ∧
    heldFor target targetRow merged =
      [Function.update (writeOver targetRow sourceRow) .bookUuid (.text target)]

theorem event_time_integer {parents : Parent → List Value} {table : DbTable}
    (stored : Stored .readingProgress parents table) {row : DbRow} (member : row ∈ table.rows) :
    (eventTime row).IsInteger := by
  rcases stored.clocked row member with absent | present
  · rw [eventTime, Value.coalesce, if_pos absent]
    exact stored.numbered row member .updatedAt (by simp) (by decide)
  · obtain ⟨time, isTime⟩ := present
    exact ⟨time, by simp [eventTime, Value.coalesce, isTime]⟩

theorem write_over_later (first second : DbRow) {before after : Int}
    (firstTime : eventTime first = .integer before)
    (secondTime : eventTime second = .integer after) (earlier : before < after) :
    writeOver first second = second ∧ writeOver second first = second := by
  simp only [writeOver, newestWins, Function.update_self, firstTime, secondTime, Value.atMost,
    decide_eq_true_eq]
  exact ⟨if_pos (by omega), if_neg (by omega)⟩

/-- The statement leaves what `writeOver` does of a stored position, in each column that it assigns
and under the same key; audio that names no file is refused before that. -/
theorem execute_writes_over (update : ProgressUpdate) (audioFiles : Uuid → Nat) (now : Int)
    (table : DbTable) {stored : DbRow} (member : stored ∈ table.rows)
    (agreed : agree [.userId, .bookUuid, .format] stored
      (update.excluded now (table.nextRowid true)) = true)
    (audible : filelessAudio audioFiles update.bookUuid stored
      (update.excluded now (table.nextRowid true)) = false) :
    ∃ row ∈ (update.execute audioFiles now table).rows,
      agree [.userId, .bookUuid, .format] row stored = true ∧
        ∀ column ∈ ProgressUpdate.assigned,
          row column = writeOver stored (update.excluded now (table.nextRowid true)) column := by
  rw [update.execute_over_stored audioFiles now table member agreed]
  generalize isOffered : update.excluded now (table.nextRowid true) = offered at agreed audible ⊢
  have timed : Function.update offered .clientUpdatedAt (eventTime offered) = offered := by
    subst isOffered
    exact Function.update_eq_self _ _
  have same : agree [.userId, .bookUuid, .format] stored stored = true :=
    agree_trans agreed (agree_comm _ _ _ ▸ agreed)
  refine ⟨_, Table.update_rows .. ▸ List.mem_map_of_mem member, ?_⟩
  rw [agreed, audible, Bool.true_and, Bool.not_false, Bool.and_true, writeOver, timed]
  by_cases newest : newestWins stored offered = true
  · rw [if_pos newest, if_pos newest]
    refine ⟨?_, fun column isAssigned => if_pos isAssigned⟩
    rw [← same]
    exact agree_congr (by simp [ProgressUpdate.assign, ProgressUpdate.assigned]) fun _ _ => rfl
  · rw [if_neg newest, if_neg newest]
    exact ⟨same, fun _ _ => rfl⟩

section Held

variable {source target : Uuid} {now : Int} {db : Db} {sourceRow targetRow : DbRow}

theorem held_after_merge (different : source ≠ target) (valid : db.Valid)
    (sourceMem : sourceRow ∈ (db.tables .readingProgress).rows)
    (targetMem : targetRow ∈ (db.tables .readingProgress).rows)
    (onSource : onBook source sourceRow = true) (onTarget : onBook target targetRow = true)
    (agreed : agree [.userId, .format] sourceRow targetRow = true) :
    heldFor target targetRow (mergedDb source target now db) =
      [Function.update
        (if (sourceRow .updatedAt).atMost (targetRow .updatedAt) then targetRow else sourceRow)
        .bookUuid (.text target)] := by
  exact latest_progress.held source target now different valid sourceMem targetMem onSource onTarget
    agreed

/-- The merge keeps the position the write path would keep exactly when the receipt times
order the two rows as their event times do, a tie of receipts counting for the target. -/
theorem leaves_newest_iff (source target : Uuid) (now : Int) (db : Db)
    (sourceRow targetRow : DbRow) (different : source ≠ target) (valid : db.Valid)
    (sourceMem : sourceRow ∈ (db.tables .readingProgress).rows)
    (targetMem : targetRow ∈ (db.tables .readingProgress).rows)
    (onSource : onBook source sourceRow = true) (onTarget : onBook target targetRow = true)
    (agreed : agree [.userId, .format] sourceRow targetRow = true)
    (clocks : eventTime sourceRow ≠ eventTime targetRow) :
    LeavesNewest source target now db sourceRow targetRow ↔
      ((sourceRow .updatedAt).atMost (targetRow .updatedAt) = true ↔
        (eventTime sourceRow).atMost (eventTime targetRow) = true) := by
  have apart := latest_progress.carried_apart different valid sourceMem targetMem onSource onTarget
  have left : LeavesNewest source target now db sourceRow targetRow ↔
      heldFor target targetRow (mergedDb source target now db) =
          [Function.update (writeOver sourceRow targetRow) .bookUuid (.text target)] ∧
        heldFor target targetRow (mergedDb source target now db) =
          [Function.update (writeOver targetRow sourceRow) .bookUuid (.text target)] := by
    simp [LeavesNewest, move_progress_and_history source target now different db valid]
  rw [left, held_after_merge different valid sourceMem targetMem onSource onTarget agreed]
  obtain ⟨sourceTime, isSource⟩ := event_time_integer (valid .readingProgress) sourceMem
  obtain ⟨targetTime, isTarget⟩ := event_time_integer (valid .readingProgress) targetMem
  rw [isSource, isTarget] at clocks
  have unequal : sourceTime ≠ targetTime := fun same => clocks (congrArg _ same)
  rcases Int.lt_or_gt_of_ne unequal with earlier | later
  · obtain ⟨forward, backward⟩ := write_over_later _ _ isSource isTarget earlier
    have ordered : (eventTime sourceRow).atMost (eventTime targetRow) = true := by
      rw [isSource, isTarget]
      exact decide_eq_true (by omega)
    rw [forward, backward]
    by_cases receipt : (sourceRow .updatedAt).atMost (targetRow .updatedAt) = true
    · simp [receipt, ordered]
    · simp [receipt, ordered, apart]
  · obtain ⟨forward, backward⟩ := write_over_later _ _ isTarget isSource later
    have ordered : ¬(eventTime sourceRow).atMost (eventTime targetRow) = true := by
      rw [isSource, isTarget]
      simp only [Value.atMost, decide_eq_true_eq]
      omega
    rw [forward, backward]
    by_cases receipt : (sourceRow .updatedAt).atMost (targetRow .updatedAt) = true
    · simp [receipt, ordered, apart.symm]
    · simp [receipt, ordered]

end Held

section Replay

/-- Reader 1 at `percent` of `book`, read at `event` and heard of at `receipt`. -/
def progressEntry (id percent receipt event : Int) (book : Uuid) : List (ColumnName × Value) :=
  [(.id, .integer id), (.userId, .integer 1), (.bookUuid, .text book), (.format, .text "epub"),
    (.progressPercent, .integer percent), (.updatedAt, .integer receipt),
    (.clientUpdatedAt, .integer event)]

def promptReader : List (List (ColumnName × Value)) :=
  [progressEntry 1 40 10 10 "a", progressEntry 2 70 20 20 "b"]

def replayedReader : List (List (ColumnName × Value)) :=
  [progressEntry 1 40 30 10 "a", progressEntry 2 70 20 20 "b"]

theorem leaves_newest_prompt_reader :
    LeavesNewest "a" "b" 100 (onlyTable .readingProgress (promptReader.map Row.of) oneReader)
      (Row.of (progressEntry 1 40 10 10 "a")) (Row.of (progressEntry 2 70 20 20 "b")) := by
  refine (leaves_newest_iff _ _ _ _ _ _ (by decide)
    (only_table_valid _ _ promptReader (by decide) (by decide)) ?_ ?_ (by decide) (by decide)
    (by decide) (by decide)).mpr (by decide)
  · exact List.mem_cons_self
  · exact List.mem_cons_of_mem _ List.mem_cons_self

theorem offline_replay_overwrites_newer :
    ¬LeavesNewest "a" "b" 100 (onlyTable .readingProgress (replayedReader.map Row.of) oneReader)
      (Row.of (progressEntry 1 40 30 10 "a")) (Row.of (progressEntry 2 70 20 20 "b")) := by
  have valid := only_table_valid .readingProgress oneReader replayedReader (by decide) (by decide)
  have sourceMem : Row.of (progressEntry 1 40 30 10 "a") ∈
      ((onlyTable .readingProgress (replayedReader.map Row.of) oneReader).tables
        .readingProgress).rows := List.mem_cons_self
  have targetMem : Row.of (progressEntry 2 70 20 20 "b") ∈
      ((onlyTable .readingProgress (replayedReader.map Row.of) oneReader).tables
        .readingProgress).rows := List.mem_cons_of_mem _ List.mem_cons_self
  have different : "a" ≠ "b" := by decide
  have onSource : onBook "a" (Row.of (progressEntry 1 40 30 10 "a")) = true := by decide
  have onTarget : onBook "b" (Row.of (progressEntry 2 70 20 20 "b")) = true := by decide
  have later := (write_over_later (Row.of (progressEntry 1 40 30 10 "a"))
    (Row.of (progressEntry 2 70 20 20 "b")) rfl rfl (by decide)).1
  intro ⟨merged, moved, newest, _⟩
  rw [move_progress_and_history "a" "b" 100 different _ valid] at moved
  cases moved
  rw [held_after_merge different valid sourceMem targetMem onSource onTarget (by decide),
    if_neg (by decide), later] at newest
  exact latest_progress.carried_apart different valid sourceMem targetMem onSource onTarget
    (List.head_eq_of_cons_eq newest)

end Replay

end Omnibus.Merge
