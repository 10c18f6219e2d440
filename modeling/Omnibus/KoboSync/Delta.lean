import Mathlib.Data.String.Basic
import Omnibus.KoboSync.ReadingState
import Omnibus.Library.Drain

/-!
# The delta of one device

`kobo/delta.rs`: the books a reader's Kobo may sync against the rows of `kobo_books_sync`, and
the record that brings the rows up to what was sent.
-/

namespace Omnibus.KoboSync

open Omnibus.Library

/-- A row of `books`. -/
structure Book where
  uuid : Uuid
  lastModified : Int
  downloadable : Bool
  deriving DecidableEq, Repr

structure KoboBookRow where
  uuid : Uuid
  lastModifiedEpoch : Int
  deriving DecidableEq, Repr

def Book.toRow (book : Book) : KoboBookRow := ⟨book.uuid, book.lastModified⟩

/-- `sync_books`: the opted-in books a download could serve, newest-modified first. -/
def syncBooks (books : List Book) (opted : List Uuid) : List KoboBookRow :=
  ((books.filter fun book => book.uuid ≠ "" && book.downloadable && opted.contains book.uuid).map
    Book.toRow).insertionSort fun left right => right.lastModifiedEpoch ≤ left.lastModifiedEpoch

/-- A row of `kobo_books_sync`, of one device. -/
structure SyncRow where
  bookUuid : Uuid
  lastModifiedSeen : Int
  syncedAt : Int
  resend : Bool
  deriving DecidableEq, Repr

abbrev Snapshot := List SyncRow

namespace Snapshot

variable (rows : Snapshot)

def held (book : Uuid) : Option SyncRow := rows.find? (·.bookUuid = book)

def books : List Uuid := rows.map (·.bookUuid)

/-- The keys of `held_snapshot`, in the order of its map. -/
def keys : List Uuid := rows.books.insertionSort (· ≤ ·)

/-- An `UPDATE` of the rows of some books. -/
def update (selects : Uuid → Bool) (change : SyncRow → SyncRow) : Snapshot :=
  rows.map fun row => if selects row.bookUuid then change row else row

def markResend (books : List Uuid) : Snapshot :=
  rows.update books.contains fun row => { row with resend := true }

def upsert (now : Int) (book : KoboBookRow) : Snapshot :=
  if book.uuid ∈ rows.books then
    rows.update (· = book.uuid) fun row =>
      { row with
        lastModifiedSeen := book.lastModifiedEpoch
        syncedAt := now
        resend := false }
  else rows ++ [⟨book.uuid, book.lastModifiedEpoch, now, false⟩]

def upsertSynced (now : Int) (books : List KoboBookRow) : Snapshot :=
  books.foldl (fun rows book => upsert rows now book) rows

def touchStateChanged (now : Int) (books : List Uuid) : Snapshot :=
  rows.update books.contains fun row => { row with syncedAt := now }

def deleteRemoved (books : List Uuid) : Snapshot :=
  rows.filter fun row => !books.contains row.bookUuid

/-- `reannounce_state_since`, of the device's rows. -/
def reannounceStateSince (book : Uuid) (eventAt : Int) : Snapshot :=
  rows.map fun row =>
    if row.bookUuid = book ∧ eventAt ≤ row.syncedAt then { row with syncedAt := eventAt - 1 }
    else row

end Snapshot

inductive SyncChange where
  | new (book : KoboBookRow)
  | changed (book : KoboBookRow)
  | stateChanged (book : KoboBookRow)
  | removed (bookUuid : Uuid)
  deriving DecidableEq, Repr

def SyncChange.book : SyncChange → Uuid
  | .new book | .changed book | .stateChanged book => book.uuid
  | .removed bookUuid => bookUuid

section Delta

variable (rows : Snapshot) (tables : ReadingTables)

def changeFor (book : KoboBookRow) : Option SyncChange :=
  match rows.held book.uuid with
  | none => some (.new book)
  | some row =>
      if row.resend then some (.new book)
      else if row.lastModifiedSeen < book.lastModifiedEpoch then some (.changed book)
      else if (readingStateFor tables book.uuid).any (row.syncedAt < ·.stateUpdatedAt) then
        some (.stateChanged book)
      else none

def removals (wanted : List KoboBookRow) : List SyncChange :=
  (rows.keys.filter fun book => book ∉ wanted.map (·.uuid)).map .removed

/-- The changes of `delta`, once its resend marks are in the rows. -/
def delta (wanted : List KoboBookRow) : List SyncChange :=
  wanted.filterMap (changeFor rows tables) ++ removals rows wanted

end Delta

section Record

def SyncChange.upserted : SyncChange → Option KoboBookRow
  | .new book | .changed book => some book
  | .stateChanged _ | .removed _ => none

def SyncChange.touched : SyncChange → Option Uuid
  | .stateChanged book => some book.uuid
  | .new _ | .changed _ | .removed _ => none

def SyncChange.dropped : SyncChange → Option Uuid
  | .removed bookUuid => some bookUuid
  | .new _ | .changed _ | .stateChanged _ => none

def recordSynced (now : Int) (rows : Snapshot) (changes : List SyncChange) : Snapshot :=
  (((rows.upsertSynced now (changes.filterMap (·.upserted))).touchStateChanged now
    (changes.filterMap (·.touched))).deleteRemoved (changes.filterMap (·.dropped)))

end Record

namespace Snapshot

variable {rows : Snapshot} {book other : Uuid} {now : Int}

theorem held_eq_some {row : SyncRow} (isHeld : rows.held book = some row) :
    row ∈ rows ∧ row.bookUuid = book := by
  have found := List.find?_some isHeld
  exact ⟨List.mem_of_find?_eq_some isHeld, by simpa using found⟩

theorem held_eq_none : rows.held book = none ↔ book ∉ rows.books := by
  simp [held, books]

theorem held_of_mem (apart : rows.books.Nodup) {row : SyncRow} (member : row ∈ rows) :
    rows.held row.bookUuid = some row := by
  cases isHeld : rows.held row.bookUuid with
  | none => exact absurd (List.mem_map_of_mem member) (held_eq_none.mp isHeld)
  | some found =>
      obtain ⟨foundMem, same⟩ := held_eq_some isHeld
      rw [List.inj_on_of_nodup_map apart foundMem member same]

theorem mem_keys : book ∈ rows.keys ↔ book ∈ rows.books := List.mem_insertionSort _

theorem keys_nodup (apart : rows.books.Nodup) : rows.keys.Nodup :=
  (List.perm_insertionSort _ _).nodup_iff.mpr apart

section Update

variable (selects : Uuid → Bool) (change : SyncRow → SyncRow)
  (keeps : ∀ row, (change row).bookUuid = row.bookUuid)

include keeps

theorem books_update : (rows.update selects change).books = rows.books := by
  unfold books update
  rw [List.map_map]
  apply List.map_congr_left
  intro row _
  simp only [Function.comp_apply]
  split
  · exact keeps row
  · rfl

theorem held_update : (rows.update selects change).held book =
    if selects book then (rows.held book).map change else rows.held book := by
  unfold held update
  rw [List.find?_map]
  have sameBook : ((fun row : SyncRow => decide (row.bookUuid = book)) ∘ fun row : SyncRow =>
      if selects row.bookUuid then change row else row) =
        fun row => decide (row.bookUuid = book) := by
    funext row
    simp only [Function.comp_apply]
    split
    · rw [keeps]
    · rfl
  rw [sameBook]
  cases isHeld : rows.find? (fun row : SyncRow => row.bookUuid = book) with
  | none => simp
  | some row =>
      have same : row.bookUuid = book := (held_eq_some isHeld).2
      rw [Option.map_some, same]
      split <;> rfl

end Update

theorem books_upsert (row : KoboBookRow) : (upsert rows now row).books =
    if row.uuid ∈ rows.books then rows.books else rows.books ++ [row.uuid] := by
  unfold upsert
  split
  · exact books_update _ _ fun _ => rfl
  · simp [books]

theorem held_upsert (row : KoboBookRow) : (upsert rows now row).held book =
    if row.uuid = book then some ⟨book, row.lastModifiedEpoch, now, false⟩
    else rows.held book := by
  unfold upsert
  split
  · rename_i present
    rw [held_update _ _ (by intro _; rfl)]
    simp only [decide_eq_true_eq, eq_comm (a := book)]
    by_cases same : row.uuid = book
    · subst same
      rw [if_pos rfl, if_pos rfl]
      cases isHeld : rows.held row.uuid with
      | none => exact absurd present (held_eq_none.mp isHeld)
      | some kept => rw [Option.map_some, (held_eq_some isHeld).2]
    · rw [if_neg same, if_neg same]
  · rename_i absent
    unfold held
    rw [List.find?_append]
    by_cases same : row.uuid = book
    · subst same
      have none := held_eq_none.mpr absent
      unfold held at none
      rw [none, if_pos rfl]
      simp
    · simp [same]

theorem held_touch (books : List Uuid) : (rows.touchStateChanged now books).held book =
    if book ∈ books then (rows.held book).map ({ · with syncedAt := now }) else rows.held book := by
  unfold touchStateChanged
  rw [held_update _ _ (by intro _; rfl)]
  simp only [List.contains_iff_mem]

theorem held_delete (books : List Uuid) : (rows.deleteRemoved books).held book =
    if book ∈ books then none else rows.held book := by
  unfold deleteRemoved held
  rw [List.find?_filter]
  split
  · rename_i gone
    rw [List.find?_eq_none]
    intro row _ selected
    simp only [Bool.not_eq_true', decide_eq_true_eq] at selected
    rw [selected.2] at selected
    simp [gone] at selected
  · rename_i stays
    congr 1
    funext row
    by_cases same : row.bookUuid = book
    · simp [same, stays]
    · simp [same]

theorem held_mark_resend (books : List Uuid) : (rows.markResend books).held book =
    if book ∈ books then (rows.held book).map ({ · with resend := true }) else rows.held book := by
  unfold markResend
  rw [held_update _ _ (by intro _; rfl)]
  simp only [List.contains_iff_mem]

theorem books_delete (books : List Uuid) : (rows.deleteRemoved books).books =
    rows.books.filter fun book => book ∉ books := by
  unfold deleteRemoved Snapshot.books
  rw [List.filter_map]
  congr 1
  apply List.filter_congr
  intro row _
  simp

theorem books_reannounce (event : Int) :
    (rows.reannounceStateSince book event).books = rows.books := by
  unfold reannounceStateSince books
  rw [List.map_map]
  apply List.map_congr_left
  intro row _
  simp only [Function.comp_apply]
  split <;> rfl

end Snapshot

end Omnibus.KoboSync
