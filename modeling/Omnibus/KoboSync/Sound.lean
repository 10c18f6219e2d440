import Omnibus.KoboSync.Sync
import Omnibus.Library.Runs

/-!
# What every step of a sync keeps

No row and no page is ahead of the books, no stamp is ahead of the clock, and the device holds
exactly the rows of `kobo_books_sync`, each at `last_modified_seen`.
-/

namespace Omnibus.KoboSync

open Omnibus.Library

def SyncChange.sent : SyncChange → Option KoboBookRow
  | .new book | .changed book | .stateChanged book => some book
  | .removed _ => none

/-- `last_modified_seen`, by book. -/
def Snapshot.seen (rows : Snapshot) (book : Uuid) : Option Int :=
  (rows.held book).map (·.lastModifiedSeen)

structure Sound (state : State) : Prop where
  epoch : 0 ≤ state.now
  clocked : state.tables.Clocked state.now
  books : (state.books.map (·.uuid)).Nodup
  rows : state.rows.books.Nodup
  once : (state.page.map (·.book)).Nodup
  seen : ∀ book ∈ state.books, ∀ last, state.rows.seen book.uuid = some last →
    last ≤ book.lastModified
  sent : ∀ change ∈ state.page, ∀ sent, change.sent = some sent →
    ∀ book ∈ state.books, book.uuid = sent.uuid → sent.lastModifiedEpoch ≤ book.lastModified
  ahead : ∀ change ∈ state.page, ∀ sent, change.sent = some sent →
    ∀ last, state.rows.seen sent.uuid = some last → last ≤ sent.lastModifiedEpoch
  held : holding state.delivered = state.rows.seen

section Rows

variable {rows : Snapshot} {book uuid : Uuid} {now : Int}

theorem held_reannounce (eventAt : Int) : (rows.reannounceStateSince book eventAt).held uuid =
    (rows.held uuid).map fun row =>
      if uuid = book ∧ eventAt ≤ row.syncedAt then { row with syncedAt := eventAt - 1 } else row := by
  unfold Snapshot.reannounceStateSince Snapshot.held
  rw [List.find?_map]
  have sameBook : ((fun row : SyncRow => decide (row.bookUuid = uuid)) ∘ fun row : SyncRow =>
      if row.bookUuid = book ∧ eventAt ≤ row.syncedAt then { row with syncedAt := eventAt - 1 }
      else row) = fun row => decide (row.bookUuid = uuid) := by
    funext row
    simp only [Function.comp_apply]
    split <;> rfl
  rw [sameBook]
  cases isHeld : rows.find? (fun row : SyncRow => row.bookUuid = uuid) with
  | none => rfl
  | some row =>
      have same : row.bookUuid = uuid := (Snapshot.held_eq_some isHeld).2
      rw [Option.map_some, Option.map_some, same]

theorem seen_reannounce (eventAt : Int) :
    (rows.reannounceStateSince book eventAt).seen = rows.seen := by
  funext uuid
  unfold Snapshot.seen
  rw [held_reannounce, Option.map_map]
  congr 1
  funext row
  simp only [Function.comp_apply]
  split <;> rfl

theorem seen_mark_resend (books : List Uuid) : (rows.markResend books).seen = rows.seen := by
  funext uuid
  unfold Snapshot.seen
  rw [Snapshot.held_mark_resend]
  split
  · rw [Option.map_map]
    rfl
  · rfl

theorem books_mark_resend (books : List Uuid) : (rows.markResend books).books = rows.books :=
  Snapshot.books_update _ _ (by intro _; rfl)

variable {changes : List SyncChange} {change : SyncChange}

theorem seen_record_of_mem (once : (changes.map (·.book)).Nodup) (member : change ∈ changes) :
    (recordSynced now rows changes).seen change.book = change.hold (rows.seen change.book) := by
  unfold Snapshot.seen
  rw [held_record_of_mem _ _ once member]
  cases change with
  | new book | changed book | removed bookUuid => rfl
  | stateChanged book =>
      change ((rows.held book.uuid).map _).map _ = (rows.held book.uuid).map _
      rw [Option.map_map]
      rfl

theorem seen_record_of_not_mem (absent : uuid ∉ changes.map (·.book)) :
    (recordSynced now rows changes).seen uuid = rows.seen uuid := by
  unfold Snapshot.seen
  rw [held_record_of_not_mem absent]

end Rows

section Delta

variable {rows : Snapshot} {tables : ReadingTables} {wanted : List KoboBookRow}

theorem sent_wanted {change : SyncChange} (member : change ∈ delta rows tables wanted)
    {sent : KoboBookRow} (isSent : change.sent = some sent) :
    sent ∈ wanted ∧ change.book = sent.uuid := by
  rcases mem_delta.mp member with ⟨book, isWanted, isChange⟩ | isRemoval
  · have fits := change_for_fits isChange
    cases change with
    | new other | changed other | stateChanged other =>
        cases isSent
        exact ⟨fits.1 ▸ isWanted, rfl⟩
    | removed uuid => exact fits.elim
  · obtain ⟨uuid, rfl, _⟩ := mem_removals.mp isRemoval
    cases isSent

end Delta

namespace State

variable {state : State}

theorem books_marked (fresh : Bool) : (state.marked fresh).books = state.rows.books := by
  unfold marked
  split
  · exact books_mark_resend _
  · rfl

theorem seen_marked (fresh : Bool) : (state.marked fresh).seen = state.rows.seen := by
  unfold marked
  split
  · exact seen_mark_resend _
  · rfl

theorem books_reannounced (book : Uuid) (eventAt : Int) (record : ReadStatusRow) :
    (state.reannounced book eventAt record).books = state.rows.books := by
  unfold reannounced
  split
  · exact Snapshot.books_reannounce _
  · rfl

theorem seen_reannounced (book : Uuid) (eventAt : Int) (record : ReadStatusRow) :
    (state.reannounced book eventAt record).seen = state.rows.seen := by
  unfold reannounced
  split
  · exact seen_reannounce _
  · rfl

end State

namespace Sound

variable {state next : State}

theorem start (start : Start state) : Sound state := by
  have empty : state.page = [] := by
    rw [State.page, start.request]
    rfl
  have unseen : state.rows.seen = fun _ => none := by
    rw [start.rows]
    rfl
  constructor
  · exact start.epoch
  · exact start.clocked
  · exact start.books
  · rw [start.rows]
    exact List.nodup_nil
  · rw [empty]
    exact List.nodup_nil
  · intro book _ last isSeen
    rw [unseen] at isSeen
    cases isSeen
  · intro change member
    rw [empty] at member
    cases member
  · intro change member
    rw [empty] at member
    cases member
  · rw [start.delivered, unseen]
    rfl

theorem with_books (sound : Sound state) {books : List Book}
    (distinct : (books.map (·.uuid)).Nodup)
    (moved : ∀ book ∈ books, ∃ old ∈ state.books, old.uuid = book.uuid ∧
      old.lastModified ≤ book.lastModified) : Sound { state with books := books } where
  epoch := sound.epoch
  clocked := sound.clocked
  books := distinct
  rows := sound.rows
  once := sound.once
  seen book member last isSeen := by
    obtain ⟨old, oldMem, same, le⟩ := moved book member
    rw [← same] at isSeen
    exact (sound.seen old oldMem last isSeen).trans le
  sent change member sent isSent book bookMem isBook := by
    obtain ⟨old, oldMem, same, le⟩ := moved book bookMem
    exact (sound.sent change member sent isSent old oldMem (same.trans isBook)).trans le
  ahead := sound.ahead
  held := sound.held

theorem edit_books (sound : Sound state) (uuid : Uuid) (change : Book → Book)
    (keeps : ∀ book, (change book).uuid = book.uuid)
    (later : ∀ book ∈ state.books, book.uuid = uuid →
      book.lastModified ≤ (change book).lastModified) :
    Sound { state with books := editBooks state.books uuid change } := by
  apply sound.with_books
  · rw [map_edit_books _ _ _ keeps]
    exact sound.books
  · intro book member
    obtain ⟨old, oldMem, rfl⟩ := List.mem_map.mp member
    refine ⟨old, oldMem, ?_⟩
    split
    · rename_i same
      exact ⟨(keeps old).symm, later old oldMem same⟩
    · exact ⟨rfl, le_rfl⟩

theorem restamped (sound : Sound state) {rows : Snapshot} {tables : ReadingTables}
    (clocked : tables.Clocked state.now) (sameBooks : rows.books = state.rows.books)
    (sameSeen : rows.seen = state.rows.seen) :
    Sound { state with rows := rows, tables := tables } where
  epoch := sound.epoch
  clocked := clocked
  books := sound.books
  rows := sameBooks ▸ sound.rows
  once := sound.once
  seen := sameSeen ▸ sound.seen
  sent := sound.sent
  ahead := sameSeen ▸ sound.ahead
  held := sound.held.trans sameSeen.symm

theorem without_request (sound : Sound state) : Sound { state with request := none } where
  epoch := sound.epoch
  clocked := sound.clocked
  books := sound.books
  rows := sound.rows
  once := List.nodup_nil
  seen := sound.seen
  sent := nofun
  ahead := nofun
  held := sound.held

theorem with_page (sound : Sound state) {request : Request} {changes : List SyncChange}
    (isChanges : request.changes = changes)
    (within : changes.Sublist state.syncDelta) :
    Sound { state with request := some request } := by
  have isPage : ({ state with request := some request } : State).page = changes := isChanges
  have apart := delta_books_nodup state.tables sound.rows
    (sync_books_nodup state.opted sound.books)
  have same : ∀ change ∈ changes, ∀ sent, change.sent = some sent →
      ∃ book ∈ state.books, book.toRow = sent := fun change member sent isSent =>
    mem_sync_books (sent_wanted (within.subset member) isSent).1
  constructor
  · exact sound.epoch
  · exact sound.clocked
  · exact sound.books
  · exact sound.rows
  · rw [isPage]
    exact apart.sublist (within.map _)
  · exact sound.seen
  · intro change member sent isSent book bookMem isBook
    rw [isPage] at member
    obtain ⟨other, otherMem, rfl⟩ := same change member sent isSent
    rw [List.inj_on_of_nodup_map sound.books bookMem otherMem isBook]
    exact le_rfl
  · intro change member sent isSent last isSeen
    rw [isPage] at member
    obtain ⟨other, otherMem, rfl⟩ := same change member sent isSent
    exact sound.seen other otherMem last isSeen
  · exact sound.held

theorem answered (sound : Sound state) {request : Request}
    (same : request.changes = state.page) : Sound { state with request := some request } := by
  have isPage : ({ state with request := some request } : State).page = state.page := same
  constructor
  · exact sound.epoch
  · exact sound.clocked
  · exact sound.books
  · exact sound.rows
  · exact isPage ▸ sound.once
  · exact sound.seen
  · exact isPage ▸ sound.sent
  · exact isPage ▸ sound.ahead
  · exact sound.held

theorem page_of_answered (page : List Entitlement) (isAnswered : state.request = some (.answered page)) :
    state.page = page.map (·.change) := by
  rw [State.page, isAnswered]
  rfl

theorem hold_page (sound : Sound state) {page : List Entitlement}
    (isPage : state.page = page.map (·.change)) :
    holding (state.delivered ++ page) =
      (recordSynced state.now state.rows (page.map (·.change))).seen := by
  have once := isPage ▸ sound.once
  have onceSent : (page.map Entitlement.book).Nodup := by
    rw [List.map_map] at once
    exact once
  funext uuid
  have before : holding state.delivered uuid = state.rows.seen uuid := congrFun sound.held uuid
  unfold holding at before ⊢
  rw [Replica.apply_append]
  by_cases carried : uuid ∈ page.map Entitlement.book
  · obtain ⟨sent, member, rfl⟩ := List.mem_map.mp carried
    rw [Replica.apply_of_mem _ _ onceSent member, before]
    exact (seen_record_of_mem once (List.mem_map_of_mem member)).symm
  · have notNamed : uuid ∉ (page.map (·.change)).map (·.book) := by
      rwa [List.map_map]
    rw [Replica.apply_of_not_mem _ _ carried, before, seen_record_of_not_mem notNamed]

theorem record (sound : Sound state) {page : List Entitlement}
    (isPage : state.page = page.map (·.change)) :
    Sound { state with
      rows := recordSynced state.now state.rows (page.map (·.change))
      request := none
      delivered := state.delivered ++ page } where
  epoch := sound.epoch
  clocked := sound.clocked
  books := sound.books
  rows := books_record_nodup _ _ sound.rows
  once := List.nodup_nil
  seen book bookMem last isSeen := by
    have once := sound.once
    rw [isPage] at once
    by_cases carried : book.uuid ∈ (page.map (·.change)).map (·.book)
    · obtain ⟨change, member, about⟩ := List.mem_map.mp carried
      change (recordSynced _ _ _).seen _ = _ at isSeen
      rw [← about, seen_record_of_mem once member] at isSeen
      have inPage : change ∈ state.page := isPage ▸ member
      cases change with
      | new sent | changed sent =>
          cases isSeen
          exact sound.sent _ inPage sent rfl book bookMem about.symm
      | stateChanged sent =>
          apply sound.seen book bookMem
          rwa [← about]
      | removed uuid => cases isSeen
    · change (recordSynced _ _ _).seen _ = _ at isSeen
      rw [seen_record_of_not_mem carried] at isSeen
      exact sound.seen book bookMem last isSeen
  sent := nofun
  ahead := nofun
  held := sound.hold_page isPage

end Sound

theorem sound_step {state next : State} (sound : Sound state) (action : Action)
    (stepped : step state action = some next) : Sound next := by
  cases action with
  | wait seconds =>
      cases stepped
      have elapsed : state.now ≤ state.now + seconds := by omega
      exact { sound with
        epoch := sound.epoch.trans elapsed
        clocked := sound.clocked.mono elapsed }
  | shelve opted =>
      cases stepped
      exact { sound with }
  | serve book downloadable =>
      cases stepped
      exact sound.edit_books _ _ (by intro _; rfl) fun _ _ _ => le_rfl
  | edit book lastModified =>
      obtain ⟨later, rfl⟩ := step_edit stepped
      exact sound.edit_books _ _ (by intro _; rfl) (edited_later later)
  | setReadStatus book status =>
      cases stepped
      exact sound.restamped (sound.clocked.with_status le_rfl) rfl rfl
  | setReadStatusAt book status eventAt =>
      cases stepped
      exact sound.restamped
        (sound.clocked.with_status (set_read_status_at_past _ _ (sound.clocked.statuses book)))
        (State.books_reannounced _ _ _) (State.seen_reannounced _ _ _)
  | upsertProgress book position clientUpdatedAt =>
      cases stepped
      exact sound.restamped (sound.clocked.upsert_progress _ _ _) rfl rfl
  | request fresh =>
      obtain ⟨-, rfl⟩ := step_request stepped
      have marked : Sound { state with rows := state.marked fresh } :=
        sound.restamped sound.clocked (State.books_marked fresh) (State.seen_marked fresh)
      exact marked.with_page rfl (List.take_sublist _ _)
  | readStates =>
      obtain ⟨changes, isComputed, rfl⟩ := step_read_states stepped
      apply sound.answered
      rw [State.page, isComputed]
      exact load_changes _ _
  | record =>
      obtain ⟨page, isAnswered, rfl⟩ := step_record stepped
      exact sound.record (Sound.page_of_answered page isAnswered)
  | drop =>
      obtain rfl := step_drop stepped
      exact sound.without_request

theorem sound_run {state last : State} (actions : List Action) (started : Start state)
    (ran : Runs.run step state actions = some last) : Sound last :=
  Runs.run_preserves step (fun _ action _ sound stepped => sound_step sound action stepped)
    actions (Sound.start started) ran

end Omnibus.KoboSync
