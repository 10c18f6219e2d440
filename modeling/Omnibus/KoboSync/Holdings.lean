import Omnibus.KoboSync.Sound

/-!
# A device's holdings follow the synced set

A device holds what the recorded pages gave it. Once nothing moves, each recorded page takes
its changes off the delta, so enough of them leave the device with exactly the synced books. A
fresh sync owes every synced book again until it is sent as new, and every removal until it is
sent.
-/

namespace Omnibus.KoboSync

open Omnibus.Library

namespace Action

/-- An action of plain syncing, with the shelves, the books and the reading left alone. -/
def Quiet : Action → Prop
  | .wait _ | .request false | .readStates | .record | .drop => True
  | _ => False

def records : Action → Bool
  | .record => true
  | _ => false

def plainSync : List Action := [.request false, .readStates, .record]

def plainSyncs (count : Nat) : List Action := (List.replicate count plainSync).flatten

end Action

section Quiet

/-- The request under way carries the first changes of the delta. -/
def OnFirst (state : State) : Prop :=
  ∀ request, state.request = some request →
    request.changes = state.syncDelta.take syncPageSize

variable {state next last : State}

theorem Sound.clocked_states (sound : Sound state) (book : Uuid) (told : KoboBookState)
    (isTold : readingStateFor state.tables book = some told) : told.stateUpdatedAt ≤ state.now :=
  sound.clocked.state_updated_le sound.epoch isTold

theorem quiet_step (sound : Sound state) (onFirst : OnFirst state) (action : Action)
    (quiet : action.Quiet) (stepped : step state action = some next) :
    OnFirst next ∧ next.syncDelta =
      if action.records then state.syncDelta.drop syncPageSize else state.syncDelta := by
  cases action with
  | wait seconds =>
      cases stepped
      exact ⟨onFirst, rfl⟩
  | request fresh =>
      cases fresh with
      | true => exact quiet.elim
      | false =>
          obtain ⟨-, rfl⟩ := step_request stepped
          refine ⟨?_, rfl⟩
          intro request isRequest
          cases isRequest
          rfl
  | readStates =>
      obtain ⟨changes, isComputed, rfl⟩ := step_read_states stepped
      refine ⟨?_, rfl⟩
      intro request isRequest
      cases isRequest
      exact (load_changes _ _).trans (onFirst _ isComputed)
  | record =>
      obtain ⟨page, isAnswered, rfl⟩ := step_record stepped
      refine ⟨(by intro request isRequest; cases isRequest), ?_⟩
      have isPage : page.map (·.change) = state.syncDelta.take syncPageSize :=
        onFirst _ isAnswered
      change delta (recordSynced _ _ _) _ _ = _
      rw [isPage]
      exact delta_record _ sound.rows (sync_books_nodup _ sound.books) sound.clocked_states
  | drop =>
      obtain rfl := step_drop stepped
      exact ⟨(by intro request isRequest; cases isRequest), rfl⟩
  | shelve opted => exact quiet.elim
  | serve book downloadable => exact quiet.elim
  | edit book lastModified => exact quiet.elim
  | setReadStatus book status => exact quiet.elim
  | setReadStatusAt book status eventAt => exact quiet.elim
  | upsertProgress book position clientUpdatedAt => exact quiet.elim

/-- What quiet syncing keeps from its first request on. -/
def Draining (state : State) : Prop := Sound state ∧ OnFirst state

theorem quiet_run (sound : Sound state) (free : state.request = none) (actions : List Action)
    (quiet : ∀ action ∈ actions, action.Quiet) (ran : Runs.run step state actions = some last) :
    last.syncDelta = state.syncDelta.drop (syncPageSize * actions.countP Action.records) := by
  have begins : Draining state := by
    refine ⟨sound, ?_⟩
    intro request isRequest
    rw [free] at isRequest
    cases isRequest
  have keeps : ∀ state action next, Draining state → action.Quiet →
      step state action = some next → Draining next ∧ next.syncDelta =
        if action.records then state.syncDelta.drop syncPageSize else state.syncDelta := by
    intro state action next ⟨sound, onFirst⟩ quiet stepped
    obtain ⟨kept, left⟩ := quiet_step sound onFirst action quiet stepped
    exact ⟨⟨sound_step sound action stepped, kept⟩, left⟩
  exact Drain.run_drains keeps actions begins quiet ran

theorem plain_syncs_run (count : Nat) (free : state.request = none) :
    (Runs.run step state (Action.plainSyncs count)).isSome := by
  induction count generalizing state with
  | zero => rfl
  | succ count induction =>
      change (Runs.run step state
        (.request false :: .readStates :: .record :: Action.plainSyncs count)).isSome = true
      simp only [Runs.run, step, free, Option.bind_some]
      exact induction rfl

theorem no_change_of_caught_up (caughtUp : state.syncDelta = []) (row : KoboBookRow)
    (isWanted : row ∈ state.wanted) : changeFor state.rows state.tables row = none := by
  rw [Option.eq_none_iff_forall_ne_some]
  intro change isChange
  have member : change ∈ state.syncDelta := mem_delta.mpr (.inl ⟨row, isWanted, isChange⟩)
  rw [caughtUp] at member
  cases member

theorem wanted_of_caught_up {book : Uuid} (caughtUp : state.syncDelta = [])
    (isRow : book ∈ state.rows.books) : state.isWanted book := by
  by_contra unwanted
  have member : .removed book ∈ state.syncDelta :=
    mem_delta.mpr (.inr (mem_removals.mpr ⟨book, rfl, isRow, unwanted⟩))
  rw [caughtUp] at member
  cases member

theorem seen_of_caught_up (sound : Sound state) (caughtUp : state.syncDelta = [])
    (row : KoboBookRow) (isWanted : row ∈ state.wanted) :
    state.rows.seen row.uuid = some row.lastModifiedEpoch := by
  have settled := change_for_eq_none.mp (no_change_of_caught_up caughtUp row isWanted)
  obtain ⟨kept, isKept, _, current, _⟩ := settled
  have isSeen : state.rows.seen row.uuid = some kept.lastModifiedSeen := by
    rw [Snapshot.seen, isKept]
    rfl
  obtain ⟨book, bookMem, rfl⟩ := mem_sync_books isWanted
  rw [isSeen, le_antisymm (sound.seen book bookMem _ isSeen) current]
  rfl

theorem Snapshot.seen_eq_some {rows : Snapshot} (apart : rows.books.Nodup) {book : Uuid}
    {lastModified : Int} : rows.seen book = some lastModified ↔
      ∃ row ∈ rows, row.bookUuid = book ∧ row.lastModifiedSeen = lastModified := by
  unfold seen
  rw [Option.map_eq_some_iff]
  constructor
  · rintro ⟨row, isHeld, isSeen⟩
    obtain ⟨member, isBook⟩ := held_eq_some isHeld
    exact ⟨row, member, isBook, isSeen⟩
  · intro ⟨row, member, equal, isSeen⟩
    subst equal
    exact ⟨row, held_of_mem apart member, isSeen⟩

theorem holding_of_caught_up (sound : Sound state) (caughtUp : state.syncDelta = [])
    (book : Uuid) (lastModified : Int) : holding state.delivered book = some lastModified ↔
      (⟨book, lastModified⟩ : KoboBookRow) ∈ state.wanted := by
  rw [sound.held]
  constructor
  · intro isSeen
    obtain ⟨kept, isRow, isBook, _⟩ := (Snapshot.seen_eq_some sound.rows).mp isSeen
    have inRows : book ∈ state.rows.books := List.mem_map.mpr ⟨kept, isRow, isBook⟩
    have isWanted := wanted_of_caught_up caughtUp inRows
    obtain ⟨row, rowMem, rfl⟩ := List.mem_map.mp isWanted
    rw [seen_of_caught_up sound caughtUp row rowMem, Option.some.injEq] at isSeen
    rwa [← isSeen]
  · exact seen_of_caught_up sound caughtUp _

end Quiet

section Fresh

variable {state next last : State} {base : List Entitlement} {book : Uuid}

/-- A change of the book has been delivered since the device had the first deliveries. -/
def SentSince (base : List Entitlement) (state : State) (change : SyncChange) : Prop :=
  ∃ sent, state.delivered = base ++ sent ∧ change ∈ sent.map (·.change)

/-- The book is still to be sent as new: it has no row, or a marked one, and a page that names
it sends it as new or removes it. -/
structure Owed (book : Uuid) (state : State) : Prop where
  row : ∀ row, state.rows.held book = some row → row.resend = true
  page : ∀ change ∈ state.page, change.book = book →
    (∃ sent, change = .new sent) ∨ change = .removed book

theorem owed_request (state : State)
    (owed : ∀ row, state.rows.held book = some row → row.resend = true)
    {changes : List SyncChange} (within : changes.Sublist state.syncDelta) :
    Owed book { state with request := some (.computed changes) } where
  row := owed
  page change member about := by
    rcases mem_delta.mp (within.subset member) with ⟨row, isWanted, isChange⟩ | isRemoval
    · have fits := change_for_fits isChange
      rw [← change_for_book isChange, about] at fits
      cases change with
      | new sent => exact .inl ⟨sent, rfl⟩
      | changed sent =>
          obtain ⟨_, kept, isKept, unmarked, _⟩ := fits
          exact absurd (owed kept isKept) (by simp [unmarked])
      | stateChanged sent =>
          obtain ⟨_, kept, isKept, unmarked, _⟩ := fits
          exact absurd (owed kept isKept) (by simp [unmarked])
      | removed uuid => exact fits.elim
    · obtain ⟨uuid, rfl, _⟩ := mem_removals.mp isRemoval
      exact .inr (congrArg _ about)

theorem marked_resend (fresh : Bool)
    (owed : ∀ row, state.rows.held book = some row → row.resend = true) :
    ∀ row, (state.marked fresh).held book = some row → row.resend = true := by
  intro row isHeld
  unfold State.marked at isHeld
  split at isHeld
  · rw [Snapshot.held_mark_resend] at isHeld
    split at isHeld
    · obtain ⟨kept, _, rfl⟩ := Option.map_eq_some_iff.mp isHeld
      rfl
    · exact owed row isHeld
  · exact owed row isHeld

theorem reannounced_resend (event : Uuid) (eventAt : Int) (record : ReadStatusRow)
    (owed : ∀ row, state.rows.held book = some row → row.resend = true) :
    ∀ row, (state.reannounced event eventAt record).held book = some row →
      row.resend = true := by
  intro row isHeld
  unfold State.reannounced at isHeld
  split at isHeld
  · rw [held_reannounce] at isHeld
    obtain ⟨kept, isKept, rfl⟩ := Option.map_eq_some_iff.mp isHeld
    split
    · exact owed kept isKept
    · exact owed kept isKept
  · exact owed row isHeld

theorem SentSince.append {change : SyncChange} {page : List Entitlement}
    (sent : SentSince base state change) {rows : Snapshot} {request : Option Request} :
    SentSince base { state with
      rows := rows
      request := request
      delivered := state.delivered ++ page } change := by
  obtain ⟨since, isSince, member⟩ := sent
  refine ⟨since ++ page, ?_, ?_⟩
  · rw [← List.append_assoc, ← isSince]
  · rw [List.map_append]
    exact List.mem_append_left _ member

/-- A fresh sync's book stays owed until it is sent as new. -/
def SentOrOwed (base : List Entitlement) (book : Uuid) (state : State) : Prop :=
  (∃ row : KoboBookRow, row.uuid = book ∧ SentSince base state (.new row)) ∨ Owed book state

theorem SentOrOwed.keep (kept : SentOrOwed base book state) (owed : Owed book state → Owed book next)
    (same : next.delivered = state.delivered) : SentOrOwed base book next := by
  rcases kept with ⟨row, isBook, since, isSince, member⟩ | isOwed
  · exact .inl ⟨row, isBook, since, same.trans isSince, member⟩
  · exact .inr (owed isOwed)

/-- A recorded page that leaves its book's row unsent has none of it, or removes it. -/
theorem owed_record (sound : Sound state) {page : List Entitlement}
    (isPage : state.page = page.map (·.change)) (owed : Owed book state)
    (since : List Entitlement) (isSince : state.delivered = base ++ since) :
    SentOrOwed base book { state with
      rows := recordSynced state.now state.rows (page.map (·.change))
      request := none
      delivered := state.delivered ++ page } := by
  have once := isPage ▸ sound.once
  by_cases carried : book ∈ (page.map (·.change)).map (·.book)
  · obtain ⟨change, member, about⟩ := List.mem_map.mp carried
    rcases owed.page change (isPage ▸ member) about with ⟨row, rfl⟩ | rfl
    · refine .inl ⟨row, about, since ++ page, ?_, ?_⟩
      · rw [← List.append_assoc, ← isSince]
      · rw [List.map_append]
        exact List.mem_append_right _ member
    · refine .inr ⟨?_, nofun⟩
      intro row isHeld
      have gone := held_record_of_mem state.now state.rows once member
      change (recordSynced _ _ _).held (SyncChange.removed book).book = some row at isHeld
      rw [gone] at isHeld
      cases isHeld
  · refine .inr ⟨?_, nofun⟩
    intro row isHeld
    change (recordSynced _ _ _).held book = some row at isHeld
    rw [held_record_of_not_mem carried] at isHeld
    exact owed.row row isHeld

theorem sent_or_owed_step (sound : Sound state) (kept : SentOrOwed base book state)
    (since : List Entitlement) (isSince : state.delivered = base ++ since) (action : Action)
    (stepped : step state action = some next) : SentOrOwed base book next := by
  cases action with
  | wait seconds | shelve opted | serve other downloadable | setReadStatus other status
  | upsertProgress other position clientUpdatedAt =>
      cases stepped
      exact kept.keep (fun owed => ⟨owed.row, owed.page⟩) rfl
  | edit other lastModified =>
      obtain ⟨-, rfl⟩ := step_edit stepped
      exact kept.keep (fun owed => ⟨owed.row, owed.page⟩) rfl
  | setReadStatusAt other status eventAt =>
      cases stepped
      exact kept.keep (fun owed => ⟨reannounced_resend _ _ _ owed.row, owed.page⟩) rfl
  | request fresh =>
      obtain ⟨-, rfl⟩ := step_request stepped
      refine kept.keep ?_ rfl
      intro owed
      exact owed_request { state with rows := state.marked fresh }
        (marked_resend fresh owed.row) (List.take_sublist _ _)
  | readStates =>
      obtain ⟨changes, isComputed, rfl⟩ := step_read_states stepped
      refine kept.keep ?_ rfl
      intro owed
      refine ⟨owed.row, fun change member => owed.page change ?_⟩
      rw [State.page, isComputed]
      exact (load_changes state.tables changes) ▸ member
  | record =>
      obtain ⟨page, isAnswered, rfl⟩ := step_record stepped
      rcases kept with ⟨row, isBook, sent⟩ | owed
      · exact .inl ⟨row, isBook, sent.append⟩
      · exact owed_record sound (Sound.page_of_answered page isAnswered) owed since isSince
  | drop =>
      obtain rfl := step_drop stepped
      exact kept.keep (fun owed => ⟨owed.row, by simp [State.page]⟩) rfl

/-- A removal stays owed until it is sent. -/
def RemovedOrHeld (base : List Entitlement) (book : Uuid) (state : State) : Prop :=
  SentSince base state (.removed book) ∨ book ∈ state.rows.books

theorem RemovedOrHeld.keep (kept : RemovedOrHeld base book state)
    (sameBooks : next.rows.books = state.rows.books) (same : next.delivered = state.delivered) :
    RemovedOrHeld base book next := by
  rcases kept with ⟨since, isSince, member⟩ | held
  · exact .inl ⟨since, same.trans isSince, member⟩
  · exact .inr (sameBooks ▸ held)

theorem books_upsert_synced_subset (rows : Snapshot) (now : Int) (books : List KoboBookRow) :
    rows.books ⊆ (rows.upsertSynced now books).books := by
  induction books generalizing rows with
  | nil => exact List.Subset.refl _
  | cons first rest induction =>
      apply List.Subset.trans _ (induction (rows.upsert now first))
      rw [Snapshot.books_upsert]
      split
      · exact List.Subset.refl _
      · exact List.subset_append_left _ _

theorem removed_or_held_step (kept : RemovedOrHeld base book state)
    (since : List Entitlement) (isSince : state.delivered = base ++ since) (action : Action)
    (stepped : step state action = some next) : RemovedOrHeld base book next := by
  cases action with
  | wait seconds | shelve opted | serve other downloadable | setReadStatus other status
  | upsertProgress other position clientUpdatedAt =>
      cases stepped
      exact kept.keep rfl rfl
  | edit other lastModified =>
      obtain ⟨-, rfl⟩ := step_edit stepped
      exact kept.keep rfl rfl
  | setReadStatusAt other status eventAt =>
      cases stepped
      exact kept.keep (State.books_reannounced _ _ _) rfl
  | request fresh =>
      obtain ⟨-, rfl⟩ := step_request stepped
      exact kept.keep (State.books_marked fresh) rfl
  | readStates =>
      obtain ⟨changes, -, rfl⟩ := step_read_states stepped
      exact kept.keep rfl rfl
  | drop =>
      obtain rfl := step_drop stepped
      exact kept.keep rfl rfl
  | record =>
      obtain ⟨page, isAnswered, rfl⟩ := step_record stepped
      rcases kept with sent | held
      · exact .inl sent.append
      · by_cases dropped : .removed book ∈ page.map (·.change)
        · refine .inl ⟨since ++ page, ?_, ?_⟩
          · rw [← List.append_assoc, ← isSince]
          · rw [List.map_append]
            exact List.mem_append_right _ dropped
        · refine .inr ?_
          change book ∈ (recordSynced _ _ _).books
          rw [books_record, List.mem_filter]
          refine ⟨books_upsert_synced_subset _ _ _ held, ?_⟩
          rw [decide_eq_true_eq, mem_dropped]
          exact dropped

theorem delivered_step (since : List Entitlement) (isSince : state.delivered = base ++ since)
    (action : Action) (stepped : step state action = some next) :
    ∃ later, next.delivered = base ++ later := by
  cases action with
  | wait seconds | shelve opted | serve other downloadable | setReadStatus other status
  | setReadStatusAt other status eventAt | upsertProgress other position clientUpdatedAt =>
      cases stepped
      exact ⟨since, isSince⟩
  | edit other lastModified =>
      obtain ⟨-, rfl⟩ := step_edit stepped
      exact ⟨since, isSince⟩
  | request fresh =>
      obtain ⟨-, rfl⟩ := step_request stepped
      exact ⟨since, isSince⟩
  | readStates =>
      obtain ⟨changes, -, rfl⟩ := step_read_states stepped
      exact ⟨since, isSince⟩
  | drop =>
      obtain rfl := step_drop stepped
      exact ⟨since, isSince⟩
  | record =>
      obtain ⟨page, isAnswered, rfl⟩ := step_record stepped
      exact ⟨since ++ page, by rw [← List.append_assoc, ← isSince]⟩

/-- What a fresh sync from `before` has come to. -/
structure Resending (before now : State) : Prop where
  sound : Sound now
  since : ∃ since, now.delivered = before.delivered ++ since
  owed : ∀ book, before.isWanted book → SentOrOwed before.delivered book now
  removed : ∀ book ∈ before.rows.books, RemovedOrHeld before.delivered book now

theorem Resending.step {before now next : State} (resending : Resending before now)
    (action : Action) (stepped : KoboSync.step now action = some next) :
    Resending before next := by
  obtain ⟨since, isSince⟩ := resending.since
  constructor
  · exact sound_step resending.sound action stepped
  · exact delivered_step since isSince action stepped
  · intro book isWanted
    exact sent_or_owed_step resending.sound (resending.owed book isWanted) since isSince action
      stepped
  · intro book isRow
    exact removed_or_held_step (resending.removed book isRow) since isSince action stepped

/-- After a fresh sync, every book it found synced and every row it found is accounted for. -/
theorem fresh_run (sound : Sound state) (later : List Action)
    (ran : Runs.run step state (.request true :: later) = some last) : Resending state last := by
  obtain ⟨next, stepped, ran⟩ := Option.bind_eq_some_iff.mp ran
  have isNext : { state with
      rows := state.marked true
      request := some (.computed
        ((delta (state.marked true) state.tables state.wanted).take syncPageSize)) } = next :=
    (step_request stepped).2.symm
  have begins : Resending state next := by
    refine ⟨sound_step sound _ stepped, ⟨[], ?_⟩, ?_, ?_⟩
    · rw [← isNext, List.append_nil]
    · intro book isWanted
      refine .inr (isNext ▸ owed_request { state with rows := state.marked true }
        ?_ (List.take_sublist _ _))
      intro row isHeld
      change (state.rows.markResend (state.wanted.map (·.uuid))).held book = some row at isHeld
      unfold State.isWanted at isWanted
      rw [Snapshot.held_mark_resend, if_pos isWanted] at isHeld
      obtain ⟨kept, _, rfl⟩ := Option.map_eq_some_iff.mp isHeld
      rfl
    · intro book isRow
      refine .inr ?_
      rw [← isNext]
      exact (State.books_marked true).symm ▸ isRow
  exact Runs.run_preserves step (fun _ action _ resending stepped => resending.step action stepped)
    later begins ran

theorem sent_of_caught_up (caughtUp : last.syncDelta = []) (isWanted : last.isWanted book)
    (kept : SentOrOwed base book last) :
    ∃ row : KoboBookRow, row.uuid = book ∧ SentSince base last (.new row) := by
  rcases kept with sent | owed
  · exact sent
  · obtain ⟨row, rowMem, rfl⟩ := List.mem_map.mp isWanted
    have settled := change_for_eq_none.mp (no_change_of_caught_up caughtUp row rowMem)
    obtain ⟨kept, isKept, unmarked, _⟩ := settled
    exact absurd (owed.row kept isKept) (by simp [unmarked])

theorem removed_of_caught_up (caughtUp : last.syncDelta = []) (unwanted : ¬last.isWanted book)
    (kept : RemovedOrHeld base book last) : SentSince base last (.removed book) :=
  kept.resolve_right fun isRow => unwanted (wanted_of_caught_up caughtUp isRow)

end Fresh

/-- The device holds the recorded rows; a quiet run of enough pages catches it up; and a fresh
sync is caught up only once it has sent every book again and every removal. -/
theorem holdings_follow_synced_set {first state : State} (actions : List Action)
    (started : Start first) (ran : Runs.run step first actions = some state) :
    (∀ book lastModified, holding state.delivered book = some lastModified ↔
      ∃ row ∈ state.rows, row.bookUuid = book ∧ row.lastModifiedSeen = lastModified) ∧
    (state.request = none →
      (∀ count, (Runs.run step state (Action.plainSyncs count)).isSome) ∧
      ∀ later last, (∀ action ∈ later, action.Quiet) → Runs.run step state later = some last →
        Drain.pagesOf syncPageSize state.syncDelta.length ≤ later.countP Action.records →
          last.syncDelta = [] ∧ ∀ book lastModified,
            holding last.delivered book = some lastModified ↔
              (⟨book, lastModified⟩ : KoboBookRow) ∈ last.wanted) ∧
    ∀ later last, Runs.run step state (.request true :: later) = some last →
      last.syncDelta = [] → ∃ since, last.delivered = state.delivered ++ since ∧
        (∀ book, state.isWanted book → last.isWanted book →
          ∃ row : KoboBookRow, row.uuid = book ∧ .new row ∈ since.map (·.change)) ∧
        ∀ row ∈ state.rows, ¬last.isWanted row.bookUuid →
          .removed row.bookUuid ∈ since.map (·.change) := by
  have sound := sound_run actions started ran
  refine ⟨?_, ?_, ?_⟩
  · intro book lastModified
    rw [sound.held]
    exact Snapshot.seen_eq_some sound.rows
  · intro free
    refine ⟨fun count => plain_syncs_run count free, ?_⟩
    intro later last quiet ranLater enough
    have left := quiet_run sound free later quiet ranLater
    have covered := (Drain.le_mul_pages_of syncPageSize state.syncDelta.length (by decide)).trans
      (Nat.mul_le_mul_left syncPageSize enough)
    have caughtUp : last.syncDelta = [] := left.trans (List.drop_eq_nil_of_le covered)
    have soundLast : Sound last := Runs.run_preserves step
      (fun _ action _ sound stepped => sound_step sound action stepped) later sound ranLater
    exact ⟨caughtUp, holding_of_caught_up soundLast caughtUp⟩
  · intro later last ranLater caughtUp
    obtain ⟨_, ⟨since, isSince⟩, owed, removed⟩ := fresh_run sound later ranLater
    refine ⟨since, isSince, ?_, ?_⟩
    · intro book wasWanted isWanted
      obtain ⟨row, isBook, other, isOther, member⟩ :=
        sent_of_caught_up caughtUp isWanted (owed book wasWanted)
      rw [List.append_cancel_left (isSince.symm.trans isOther)]
      exact ⟨row, isBook, member⟩
    · intro row isRow unwanted
      obtain ⟨other, isOther, member⟩ :=
        removed_of_caught_up caughtUp unwanted (removed _ (List.mem_map_of_mem isRow))
      rwa [List.append_cancel_left (isSince.symm.trans isOther)]

def twoBooks : State where
  now := 100
  books := [⟨"a", 5, true⟩, ⟨"b", 9, true⟩]
  opted := []
  rows := []
  tables := ⟨fun _ => none, fun _ => none⟩
  request := none
  delivered := []

theorem two_books_start : Start twoBooks where
  epoch := by decide
  clocked := ⟨nofun, nofun⟩
  books := by decide
  rows := rfl
  request := rfl
  delivered := rfl

def oneUnshelved : List Action :=
  .shelve ["a", "b"] :: Action.plainSyncs 1 ++ [.shelve ["b"]]

theorem holdings_follow_of_fresh_sync :
    ∃ state last since, Runs.run step twoBooks oneUnshelved = some state ∧
      holding state.delivered "a" = some 5 ∧
        Runs.run step state [.request true, .readStates, .record] = some last ∧
          last.syncDelta = [] ∧ last.delivered = state.delivered ++ since ∧
            (∃ row : KoboBookRow, row.uuid = "b" ∧ .new row ∈ since.map (·.change)) ∧
              .removed "a" ∈ since.map (·.change) := by
  obtain ⟨state, ran⟩ : ∃ state, Runs.run step twoBooks oneUnshelved = some state :=
    Option.isSome_iff_exists.mp (by decide +kernel)
  obtain ⟨held, _, fresh⟩ := holdings_follow_synced_set oneUnshelved two_books_start ran
  obtain ⟨last, synced⟩ : ∃ last, Runs.run step state [.request true, .readStates, .record] =
      some last := Option.isSome_iff_exists.mp (by
    cases ran
    decide +kernel)
  have caughtUp : last.syncDelta = [] := by
    cases ran
    cases synced
    decide +kernel
  obtain ⟨since, isSince, sent, removed⟩ := fresh [.readStates, .record] last synced caughtUp
  have unshelved : state.isWanted "b" ∧ last.isWanted "b" ∧ ¬last.isWanted "a" ∧
      ∃ row ∈ state.rows, row.bookUuid = "a" ∧ row.lastModifiedSeen = 5 := by
    cases ran
    cases synced
    unfold State.isWanted
    decide +kernel
  obtain ⟨wasWanted, isWanted, unwanted, row, member, isBook, seen⟩ := unshelved
  exact ⟨state, last, since, ran, (held "a" 5).mpr ⟨row, member, isBook, seen⟩, synced, caughtUp,
    isSince, sent "b" wasWanted isWanted, isBook ▸ removed row member (isBook ▸ unwanted)⟩

end Omnibus.KoboSync
