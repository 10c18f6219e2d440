import Omnibus.KoboSync.Recorded
import Omnibus.Library.Replica

/-!
# A device that syncs

One device of a reader and everything that moves under it: the shelves, the books, the reader's
statuses and positions, and the device's `library/sync` requests, one at a time. A request
computes the delta, reads the states of its page and records the page once the body is out;
a body that is dropped records nothing.
-/

namespace Omnibus.KoboSync

open Omnibus.Library

def syncPageSize : Nat := 100

/-- A change with what the response says of the book's reading state. -/
structure Entitlement where
  change : SyncChange
  reading : Option Reading
  deriving DecidableEq, Repr

def Entitlement.book (sent : Entitlement) : Uuid := sent.change.book

/-- `load_sync_page_states`: a removal has no state to report. -/
def loadSyncPageStates (tables : ReadingTables) (changes : List SyncChange) : List Entitlement :=
  changes.map fun change => match change with
    | .removed bookUuid => ⟨.removed bookUuid, none⟩
    | .new book => ⟨.new book, some (tables.stored book.uuid)⟩
    | .changed book => ⟨.changed book, some (tables.stored book.uuid)⟩
    | .stateChanged book => ⟨.stateChanged book, some (tables.stored book.uuid)⟩

/-- How far a `library/sync` request has got. -/
inductive Request where
  | computed (changes : List SyncChange)
  | answered (page : List Entitlement)
  deriving DecidableEq, Repr

def Request.changes : Request → List SyncChange
  | .computed changes => changes
  | .answered page => page.map (·.change)

structure State where
  now : Int
  books : List Book
  opted : List Uuid
  rows : Snapshot
  tables : ReadingTables
  request : Option Request
  delivered : List Entitlement

namespace State

variable (state : State)

def wanted : List KoboBookRow := syncBooks state.books state.opted

def syncDelta : List SyncChange := delta state.rows state.tables state.wanted

def isWanted (book : Uuid) : Prop := book ∈ state.wanted.map (·.uuid)

def page : List SyncChange := (state.request.map (·.changes)).getD []

/-- `mark_resend` of `fresh_sync_delta`. -/
def marked (fresh : Bool) : Snapshot :=
  if fresh then state.rows.markResend (state.wanted.map (·.uuid)) else state.rows

/-- The rows after `set_read_status_at_tx` has left a status. -/
def reannounced (book : Uuid) (eventAt : Int) (record : ReadStatusRow) : Snapshot :=
  if record.updatedAt ≤ eventAt then state.rows.reannounceStateSince book record.updatedAt
  else state.rows

end State

inductive Action where
  | wait (seconds : Nat)
  | shelve (opted : List Uuid)
  | serve (book : Uuid) (downloadable : Bool)
  | edit (book : Uuid) (lastModified : Int)
  | setReadStatus (book : Uuid) (status : ReadStatus)
  | setReadStatusAt (book : Uuid) (status : ReadStatus) (eventAt : Int)
  | upsertProgress (book : Uuid) (position : Position) (clientUpdatedAt : Option Int)
  | request (fresh : Bool)
  | readStates
  | record
  | drop

def editBooks (books : List Book) (uuid : Uuid) (change : Book → Book) : List Book :=
  books.map fun book => if book.uuid = uuid then change book else book

/-- One step; none when the device has a request under way, or has not got so far. An edit
moves `last_modified` on. -/
def step (state : State) : Action → Option State
  | .wait seconds => some { state with now := state.now + seconds }
  | .shelve opted => some { state with opted := opted }
  | .serve book downloadable =>
      some { state with
        books := editBooks state.books book fun kept => { kept with downloadable := downloadable } }
  | .edit book lastModified =>
      if state.books.all fun kept => kept.uuid ≠ book || kept.lastModified < lastModified then
        some { state with
          books := editBooks state.books book fun kept =>
            { kept with lastModified := lastModified } }
      else none
  | .setReadStatus book status =>
      some { state with
        tables := state.tables.withStatus book
          (setReadStatus state.now status (state.tables.statuses book)) }
  | .setReadStatusAt book status eventAt =>
      let record := setReadStatusAt state.now status eventAt (state.tables.statuses book)
      some { state with
        tables := state.tables.withStatus book record
        rows := state.reannounced book eventAt record }
  | .upsertProgress book position clientUpdatedAt =>
      some { state with
        tables := state.tables.upsertProgress book state.now position clientUpdatedAt }
  | .request fresh =>
      match state.request with
      | some _ => none
      | none =>
          let rows := state.marked fresh
          some { state with
            rows := rows
            request := some (.computed
              ((delta rows state.tables state.wanted).take syncPageSize)) }
  | .readStates =>
      match state.request with
      | some (.computed changes) =>
          some { state with request := some (.answered (loadSyncPageStates state.tables changes)) }
      | _ => none
  | .record =>
      match state.request with
      | some (.answered page) =>
          some { state with
            rows := recordSynced state.now state.rows (page.map (·.change))
            request := none
            delivered := state.delivered ++ page }
      | _ => none
  | .drop =>
      match state.request with
      | some _ => some { state with request := none }
      | none => none

section Steps

variable {state next : State}

theorem step_edit {book : Uuid} {lastModified : Int}
    (stepped : step state (.edit book lastModified) = some next) :
    (state.books.all fun kept => kept.uuid ≠ book || kept.lastModified < lastModified) = true ∧
      next = { state with
        books := editBooks state.books book fun kept =>
          { kept with lastModified := lastModified } } := by
  simp only [step] at stepped
  split at stepped
  · rename_i later
    exact ⟨later, (Option.some.inj stepped).symm⟩
  · cases stepped

theorem step_request {fresh : Bool} (stepped : step state (.request fresh) = some next) :
    state.request = none ∧
      next = { state with
        rows := state.marked fresh
        request := some (.computed
          ((delta (state.marked fresh) state.tables state.wanted).take syncPageSize)) } := by
  simp only [step] at stepped
  split at stepped
  · cases stepped
  · rename_i free
    exact ⟨free, (Option.some.inj stepped).symm⟩

theorem step_read_states (stepped : step state .readStates = some next) :
    ∃ changes, state.request = some (.computed changes) ∧
      next = { state with
        request := some (.answered (loadSyncPageStates state.tables changes)) } := by
  simp only [step] at stepped
  split at stepped
  · rename_i changes isComputed
    exact ⟨changes, isComputed, (Option.some.inj stepped).symm⟩
  · cases stepped

theorem step_record (stepped : step state .record = some next) :
    ∃ page, state.request = some (.answered page) ∧
      next = { state with
        rows := recordSynced state.now state.rows (page.map (·.change))
        request := none
        delivered := state.delivered ++ page } := by
  simp only [step] at stepped
  split at stepped
  · rename_i page isAnswered
    exact ⟨page, isAnswered, (Option.some.inj stepped).symm⟩
  · cases stepped

theorem step_drop (stepped : step state .drop = some next) :
    next = { state with request := none } := by
  simp only [step] at stepped
  split at stepped
  · exact (Option.some.inj stepped).symm
  · cases stepped

end Steps

section Device

def SyncChange.hold (held : Option Int) : SyncChange → Option Int
  | .new book | .changed book => some book.lastModifiedEpoch
  | .stateChanged _ => held
  | .removed _ => none

/-- The books on a device that began empty, each at the `last_modified` it was sent at. -/
def holding (delivered : List Entitlement) : Uuid → Option Int :=
  Replica.apply Entitlement.book (fun sent held => sent.change.hold held) (fun _ => none) delivered

def shown (delivered : List Entitlement) : Uuid → Option Reading :=
  Replica.apply Entitlement.book (fun sent _ => sent.reading) (fun _ => none) delivered

end Device

/-- A device that has synced nothing, of a reader whose rows are not from the future. -/
structure Start (state : State) : Prop where
  epoch : 0 ≤ state.now
  clocked : state.tables.Clocked state.now
  books : (state.books.map (·.uuid)).Nodup
  rows : state.rows = []
  request : state.request = none
  delivered : state.delivered = []

section Facts

variable {state : State}

theorem load_changes (tables : ReadingTables) (changes : List SyncChange) :
    (loadSyncPageStates tables changes).map (·.change) = changes := by
  unfold loadSyncPageStates
  rw [List.map_map]
  conv_rhs => rw [← List.map_id changes]
  apply List.map_congr_left
  intro change _
  cases change <;> rfl

theorem map_edit_books (books : List Book) (uuid : Uuid) (change : Book → Book)
    (keeps : ∀ book, (change book).uuid = book.uuid) :
    (editBooks books uuid change).map (·.uuid) = books.map (·.uuid) := by
  unfold editBooks
  rw [List.map_map]
  apply List.map_congr_left
  intro book _
  simp only [Function.comp_apply]
  split
  · exact keeps book
  · rfl

theorem edited_later {books : List Book} {uuid : Uuid} {lastModified : Int}
    (later : (books.all fun kept => kept.uuid ≠ uuid || kept.lastModified < lastModified) = true)
    (kept : Book) (member : kept ∈ books) (same : kept.uuid = uuid) :
    kept.lastModified ≤ lastModified := by
  have newer := List.all_eq_true.mp later kept member
  simp only [same, ne_eq, not_true_eq_false, decide_false, Bool.false_or,
    decide_eq_true_eq] at newer
  exact newer.le

theorem mem_sync_books {books : List Book} {opted : List Uuid} {row : KoboBookRow}
    (member : row ∈ syncBooks books opted) : ∃ book ∈ books, book.toRow = row := by
  rw [syncBooks, List.mem_insertionSort, List.mem_map] at member
  obtain ⟨book, selected, isRow⟩ := member
  exact ⟨book, List.mem_of_mem_filter selected, isRow⟩

theorem sync_books_nodup {books : List Book} (opted : List Uuid)
    (apart : (books.map (·.uuid)).Nodup) : ((syncBooks books opted).map (·.uuid)).Nodup := by
  have sorted := (List.perm_insertionSort
    (fun left right : KoboBookRow => right.lastModifiedEpoch ≤ left.lastModifiedEpoch)
    ((books.filter fun book => book.uuid ≠ "" && book.downloadable &&
      opted.contains book.uuid).map Book.toRow)).map (·.uuid)
  rw [List.map_map] at sorted
  exact sorted.nodup_iff.mpr (apart.sublist (List.filter_sublist.map _))

end Facts

end Omnibus.KoboSync
