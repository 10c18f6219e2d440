import Mathlib.Data.Rat.Defs
import Mathlib.Logic.Function.Basic
import Mathlib.Order.MinMax

/-!
# The reading state of one reader

`book_read_status` and the epub rows of `reading_progress`, the writers of each, and the state
`kobo.rs` reads out of the two for a device.
-/

namespace Omnibus.KoboSync

abbrev Uuid := String

inductive ReadStatus where
  | unread
  | reading
  | finished
  deriving DecidableEq, Repr

structure ReadStatusRow where
  status : ReadStatus
  updatedAt : Int
  finishedAt : Option Int
  autoStarted : Bool
  deriving DecidableEq, Repr

structure Position where
  epubCfi : Option String
  progressPercent : Option Int
  koboLocation : Option String
  bookFileId : Option Int
  koreaderXpointer : Option String
  koreaderPercentage : Option ℚ
  deriving DecidableEq, Repr

structure ProgressRow where
  position : Position
  updatedAt : Int
  clientUpdatedAt : Option Int
  deriving DecidableEq, Repr

/-- `COALESCE(client_updated_at, updated_at)`. -/
def ProgressRow.eventTime (row : ProgressRow) : Int := row.clientUpdatedAt.getD row.updatedAt

structure ReadingTables where
  statuses : Uuid → Option ReadStatusRow
  progress : Uuid → Option ProgressRow

section Writers

variable (now : Int)

/-- What a write stamps a book finished with, keeping the first completion. -/
def finishedAt (status : ReadStatus) (stored : Option Int) (stamp : Int) : Option Int :=
  if status = .finished then some (stored.getD stamp) else none

/-- `set_read_status_tx`. -/
def setReadStatus (status : ReadStatus) (stored : Option ReadStatusRow) : ReadStatusRow where
  status := status
  updatedAt := now
  finishedAt := finishedAt status (stored.bind (·.finishedAt)) now
  autoStarted := false

def statusLands (eventAt : Int) (stored : ReadStatusRow) : Bool :=
  stored.updatedAt ≤ min eventAt now || stored.autoStarted

def landedStatus (status : ReadStatus) (eventAt : Int) (stored : Option ReadStatusRow) :
    ReadStatusRow where
  status := status
  updatedAt := min eventAt now
  finishedAt := finishedAt status (stored.bind (·.finishedAt)) (min eventAt now)
  autoStarted := false

/-- The statement of `set_read_status_at_tx`. -/
def setReadStatusAt (status : ReadStatus) (eventAt : Int) : Option ReadStatusRow → ReadStatusRow
  | none => landedStatus now status eventAt none
  | some stored =>
      if statusLands now eventAt stored then landedStatus now status eventAt (some stored)
      else stored

def clamped (clientUpdatedAt : Option Int) : Int := min (clientUpdatedAt.getD now) now

def positionLands (clientUpdatedAt : Option Int) (stored : ProgressRow) : Bool :=
  stored.eventTime ≤ clamped now clientUpdatedAt

def landedPosition (position : Position) (clientUpdatedAt : Option Int) : ProgressRow where
  position := position
  updatedAt := now
  clientUpdatedAt := some (clamped now clientUpdatedAt)

/-- `execute_upsert_query`, on the epub row. -/
def executeUpsert (position : Position) (clientUpdatedAt : Option Int) :
    Option ProgressRow → ProgressRow
  | none => landedPosition now position clientUpdatedAt
  | some stored =>
      if positionLands now clientUpdatedAt stored then
        landedPosition now position clientUpdatedAt
      else stored

end Writers

/-- A book with no status gets `reading`, dated by the surviving position. -/
def markStarted (surviving : ProgressRow) : Option ReadStatusRow → ReadStatusRow
  | none => ⟨.reading, surviving.eventTime, none, true⟩
  | some stored => stored

namespace ReadingTables

variable (tables : ReadingTables) (book : Uuid)

def withStatus (row : ReadStatusRow) : ReadingTables :=
  { tables with statuses := Function.update tables.statuses book (some row) }

def withProgress (row : ProgressRow) : ReadingTables :=
  { tables with progress := Function.update tables.progress book (some row) }

/-- `upsert_koreader_progress_tx` of an epub position. -/
def upsertProgress (now : Int) (position : Position) (clientUpdatedAt : Option Int) :
    ReadingTables :=
  let surviving := executeUpsert now position clientUpdatedAt (tables.progress book)
  (tables.withProgress book surviving).withStatus book
    (markStarted surviving (tables.statuses book))

end ReadingTables

structure KoboBookState where
  status : ReadStatus
  position : Option Position
  stateUpdatedAt : Int
  progressUpdatedAt : Int
  statusUpdatedAt : Int
  deriving DecidableEq, Repr

def statusClock (status : Option ReadStatusRow) : Int := (status.map (·.updatedAt)).getD 0

def progressClock (progress : Option ProgressRow) : Int := (progress.map (·.eventTime)).getD 0

def rowToKoboState (status : Option ReadStatusRow) (progress : Option ProgressRow) :
    KoboBookState where
  status := (status.map (·.status)).getD .unread
  position := progress.map (·.position)
  stateUpdatedAt := max (statusClock status) (progressClock progress)
  progressUpdatedAt := progressClock progress
  statusUpdatedAt := statusClock status

/-- A book with neither row is absent. -/
def readingStateFor (tables : ReadingTables) (book : Uuid) : Option KoboBookState :=
  if (tables.statuses book).isSome || (tables.progress book).isSome then
    some (rowToKoboState (tables.statuses book) (tables.progress book))
  else none

/-- What a device shows of a book: a miss is an unread book with no position. -/
structure Reading where
  status : ReadStatus
  position : Option Position
  deriving DecidableEq, Repr

def Reading.ofState : Option KoboBookState → Reading
  | none => ⟨.unread, none⟩
  | some state => ⟨state.status, state.position⟩

def ReadingTables.stored (tables : ReadingTables) (book : Uuid) : Reading :=
  Reading.ofState (readingStateFor tables book)

namespace ReadingTables

variable {tables : ReadingTables} {book other : Uuid} {now : Int}

theorem stored_eq (tables : ReadingTables) (book : Uuid) : tables.stored book =
    ⟨((tables.statuses book).map (·.status)).getD .unread,
      (tables.progress book).map (·.position)⟩ := by
  unfold stored readingStateFor
  cases statuses : tables.statuses book <;> cases progress : tables.progress book <;> rfl

def Pending (tables : ReadingTables) (book : Uuid) (since : Int) : Prop :=
  (∃ row, tables.statuses book = some row ∧ since < row.updatedAt) ∨
    ∃ row, tables.progress book = some row ∧ since < row.eventTime

instance (tables : ReadingTables) (book : Uuid) (since : Int) :
    Decidable (tables.Pending book since) :=
  decidable_of_iff ((tables.statuses book).any (since < ·.updatedAt) = true ∨
      (tables.progress book).any (since < ·.eventTime) = true) (by
    unfold Pending
    simp [Option.any_eq_true])

theorem Pending.state_updated {since : Int} (pending : tables.Pending book since) :
    ∃ state, readingStateFor tables book = some state ∧ since < state.stateUpdatedAt := by
  unfold readingStateFor
  rcases pending with ⟨row, isRow, later⟩ | ⟨row, isRow, later⟩
  · rw [isRow]
    exact ⟨_, rfl, lt_max_of_lt_left later⟩
  · rw [isRow, Option.isSome_some, Bool.or_true, if_pos rfl]
    exact ⟨_, rfl, lt_max_of_lt_right later⟩

structure Clocked (tables : ReadingTables) (now : Int) : Prop where
  statuses : ∀ book row, tables.statuses book = some row → row.updatedAt ≤ now
  progress : ∀ book row, tables.progress book = some row → row.eventTime ≤ now

namespace Clocked

theorem mono {later : Int} (clocked : tables.Clocked now) (elapsed : now ≤ later) :
    tables.Clocked later where
  statuses book row isRow := (clocked.statuses book row isRow).trans elapsed
  progress book row isRow := (clocked.progress book row isRow).trans elapsed

theorem state_updated_le (clocked : tables.Clocked now) (epoch : 0 ≤ now)
    {state : KoboBookState} (isState : readingStateFor tables book = some state) :
    state.stateUpdatedAt ≤ now := by
  unfold readingStateFor at isState
  split at isState
  · cases isState
    apply max_le
    · cases isRow : tables.statuses book with
      | none => exact epoch
      | some row => exact clocked.statuses book row isRow
    · cases isRow : tables.progress book with
      | none => exact epoch
      | some row => exact clocked.progress book row isRow
  · cases isState

theorem with_status (clocked : tables.Clocked now) {row : ReadStatusRow}
    (past : row.updatedAt ≤ now) : (tables.withStatus book row).Clocked now where
  statuses other kept isRow := by
    change Function.update tables.statuses book (some row) other = some kept at isRow
    by_cases same : other = book
    · rw [same, Function.update_self, Option.some.injEq] at isRow
      exact isRow ▸ past
    · rw [Function.update_of_ne same] at isRow
      exact clocked.statuses other kept isRow
  progress := clocked.progress

theorem with_progress (clocked : tables.Clocked now) {row : ProgressRow}
    (past : row.eventTime ≤ now) : (tables.withProgress book row).Clocked now where
  statuses := clocked.statuses
  progress other kept isRow := by
    change Function.update tables.progress book (some row) other = some kept at isRow
    by_cases same : other = book
    · rw [same, Function.update_self, Option.some.injEq] at isRow
      exact isRow ▸ past
    · rw [Function.update_of_ne same] at isRow
      exact clocked.progress other kept isRow

end Clocked

end ReadingTables

section Clocks

variable {now : Int}

theorem execute_upsert_past (position : Position) (clientUpdatedAt : Option Int)
    {stored : Option ProgressRow} (past : ∀ row, stored = some row → row.eventTime ≤ now) :
    (executeUpsert now position clientUpdatedAt stored).eventTime ≤ now := by
  cases stored with
  | none => exact min_le_right _ _
  | some row =>
      unfold executeUpsert
      dsimp only
      split
      · exact min_le_right _ _
      · exact past row rfl

theorem mark_started_past {surviving : ProgressRow} (survives : surviving.eventTime ≤ now)
    {stored : Option ReadStatusRow} (past : ∀ row, stored = some row → row.updatedAt ≤ now) :
    (markStarted surviving stored).updatedAt ≤ now := by
  cases stored with
  | none => exact survives
  | some row => exact past row rfl

theorem set_read_status_at_past (status : ReadStatus) (eventAt : Int)
    {stored : Option ReadStatusRow} (past : ∀ row, stored = some row → row.updatedAt ≤ now) :
    (setReadStatusAt now status eventAt stored).updatedAt ≤ now := by
  cases stored with
  | none => exact min_le_right _ _
  | some row =>
      unfold setReadStatusAt
      dsimp only
      split
      · exact min_le_right _ _
      · exact past row rfl

theorem ReadingTables.Clocked.upsert_progress {tables : ReadingTables}
    (clocked : tables.Clocked now) (book : Uuid) (position : Position)
    (clientUpdatedAt : Option Int) :
    (tables.upsertProgress book now position clientUpdatedAt).Clocked now := by
  have survives := execute_upsert_past position clientUpdatedAt (clocked.progress book)
  exact (clocked.with_progress survives).with_status
    (mark_started_past survives (clocked.statuses book))

end Clocks

end Omnibus.KoboSync
