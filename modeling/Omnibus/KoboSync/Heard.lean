import Omnibus.KoboSync.Sound

/-!
# Which reading-state changes a device hears of

The delta owes a book's state to a device when a row of the reader is dated after the second
the book was last recorded in. A status dated by its event moves that watermark back; a
position, and a status dated by the server, do not. A device hears of every change in a run
whose later ones are dated after the record, and whose records carry what is stored.
-/

namespace Omnibus.KoboSync

open Omnibus.Library

/-- The delta owes an entry for the row's book, whatever the device was told. -/
def OwesEntry (state : State) (row : SyncRow) : Prop :=
  row.resend = true ∨
    (∃ book ∈ state.books, book.uuid = row.bookUuid ∧
      row.lastModifiedSeen < book.lastModified) ∨
    state.tables.Pending row.bookUuid row.syncedAt

/-- A position write that leaves the status and the position as they are. -/
def LeavesReading (state : State) (book : Uuid) (position : Position)
    (clientUpdatedAt : Option Int) : Prop :=
  (state.tables.statuses book).isSome = true ∧
    ∃ row, state.tables.progress book = some row ∧
      (positionLands state.now clientUpdatedAt row = false ∨ row.position = position)

/-- The page says of the book what the reader has, or the book was edited since. -/
def CarriesStored (state : State) (sent : Entitlement) : Prop :=
  ∀ told, sent.reading = some told → told = state.tables.stored sent.book ∨
    ∃ book ∈ state.books, book.uuid = sent.book ∧
      ∀ row, sent.change.sent = some row → row.lastModifiedEpoch < book.lastModified

def State.answered (state : State) : List Entitlement :=
  match state.request with
  | some (.answered page) => page
  | _ => []

/-- When a device will hear of a write, and of what was written before a record. -/
def Heard (state : State) : Action → Prop
  | .setReadStatus book status => ∀ row, state.rows.held book = some row →
      row.syncedAt < state.now ∨ status = (state.tables.stored book).status ∨
        OwesEntry state row
  | .upsertProgress book position clientUpdatedAt => ∀ row, state.rows.held book = some row →
      row.syncedAt < clamped state.now clientUpdatedAt ∨
        LeavesReading state book position clientUpdatedAt ∨ OwesEntry state row
  | .record => ∀ sent ∈ state.answered, CarriesStored state sent
  | _ => True

instance (state : State) (row : SyncRow) : Decidable (OwesEntry state row) :=
  inferInstanceAs (Decidable (_ ∨ _ ∨ _))

instance (state : State) (book : Uuid) (position : Position) (clientUpdatedAt : Option Int) :
    Decidable (LeavesReading state book position clientUpdatedAt) :=
  inferInstanceAs (Decidable (_ ∧ ∃ row ∈ state.tables.progress book, _ ∨ _))

instance (state : State) (sent : Entitlement) : Decidable (CarriesStored state sent) :=
  inferInstanceAs (Decidable (∀ told ∈ sent.reading, _ ∨
    ∃ book ∈ state.books, _ ∧ ∀ row ∈ sent.change.sent, _))

instance Heard.decidable (state : State) : (action : Action) → Decidable (Heard state action)
  | .setReadStatus book _ => inferInstanceAs (Decidable (∀ row ∈ state.rows.held book, _ ∨ _ ∨ _))
  | .upsertProgress book _ _ =>
      inferInstanceAs (Decidable (∀ row ∈ state.rows.held book, _ ∨ _ ∨ _))
  | .record => inferInstanceAs (Decidable (∀ sent ∈ state.answered, CarriesStored state sent))
  | .wait _ | .shelve _ | .serve _ _ | .edit _ _ | .setReadStatusAt _ _ _ | .request _
  | .readStates | .drop => isTrue trivial

/-- What the device was told of a book is what the reader has, or an entry is owed. -/
def Told (state : State) : Prop :=
  ∀ book row, state.rows.held book = some row →
    (∀ told, shown state.delivered book = some told → told = state.tables.stored book) ∨
      OwesEntry state row

namespace ReadingTables

variable {tables : ReadingTables} {book other : Uuid} {since : Int}

structure SameAt (tables others : ReadingTables) (book : Uuid) : Prop where
  statuses : tables.statuses book = others.statuses book
  progress : tables.progress book = others.progress book

theorem SameAt.stored {others : ReadingTables} (same : SameAt tables others book) :
    tables.stored book = others.stored book := by
  rw [stored_eq, stored_eq, same.statuses, same.progress]

theorem SameAt.pending {others : ReadingTables} (same : SameAt tables others book)
    (pending : tables.Pending book since) : others.Pending book since := by
  unfold Pending at pending ⊢
  rwa [← same.statuses, ← same.progress]

theorem with_status_same_at (tables : ReadingTables) (row : ReadStatusRow) (apart : book ≠ other) :
    SameAt tables (tables.withStatus other row) book where
  statuses := (Function.update_of_ne apart _ _).symm
  progress := rfl

theorem with_status_statuses (row : ReadStatusRow) :
    (tables.withStatus book row).statuses book = some row := Function.update_self _ _ _

theorem with_progress_progress (row : ProgressRow) :
    (tables.withProgress book row).progress book = some row := Function.update_self _ _ _

theorem stored_with_status {row : ReadStatusRow} (same : row.status = (tables.stored book).status) :
    (tables.withStatus book row).stored book = tables.stored book := by
  rw [stored_eq] at same ⊢
  rw [stored_eq, with_status_statuses, Option.map_some, Option.getD_some, same]
  rfl

theorem pending_with_status {row : ReadStatusRow} (later : since < row.updatedAt) :
    (tables.withStatus book row).Pending book since :=
  .inl ⟨row, with_status_statuses row, later⟩

theorem Pending.with_status (pending : tables.Pending book since) {row : ReadStatusRow}
    (later : ∀ old, tables.statuses book = some old → old.updatedAt ≤ row.updatedAt) :
    (tables.withStatus book row).Pending book since := by
  rcases pending with ⟨old, isOld, past⟩ | ⟨old, isOld, past⟩
  · exact pending_with_status (past.trans_le (later old isOld))
  · exact .inr ⟨old, isOld, past⟩

theorem Pending.with_progress (pending : tables.Pending book since) {row : ProgressRow}
    (later : ∀ old, tables.progress book = some old → old.eventTime ≤ row.eventTime) :
    (tables.withProgress book row).Pending book since := by
  rcases pending with ⟨old, isOld, past⟩ | ⟨old, isOld, past⟩
  · exact .inl ⟨old, isOld, past⟩
  · exact .inr ⟨row, with_progress_progress row, past.trans_le (later old isOld)⟩

/-- A position write leaves no earlier event time than the stored one or its own. -/
theorem execute_upsert_later (now : Int) (position : Position) (clientUpdatedAt : Option Int)
    (stored : Option ProgressRow) :
    clamped now clientUpdatedAt ≤ (executeUpsert now position clientUpdatedAt stored).eventTime ∧
      ∀ old, stored = some old →
        old.eventTime ≤ (executeUpsert now position clientUpdatedAt stored).eventTime := by
  cases stored with
  | none => exact ⟨le_rfl, nofun⟩
  | some row =>
      unfold executeUpsert
      dsimp only
      split
      · rename_i lands
        refine ⟨le_rfl, ?_⟩
        intro old isOld
        cases isOld
        exact of_decide_eq_true lands
      · rename_i lost
        refine ⟨(not_le.mp fun le => lost (decide_eq_true le)).le, ?_⟩
        intro old isOld
        cases isOld
        exact le_rfl

theorem Pending.upsert_progress (pending : tables.Pending book since) (now : Int)
    (position : Position) (clientUpdatedAt : Option Int) :
    (tables.upsertProgress book now position clientUpdatedAt).Pending book since := by
  unfold upsertProgress
  apply (pending.with_progress (execute_upsert_later _ _ _ _).2).with_status
  intro old isOld
  change tables.statuses book = some old at isOld
  rw [isOld]
  exact le_rfl

theorem pending_upsert_progress (now : Int) (position : Position) (clientUpdatedAt : Option Int)
    (later : since < clamped now clientUpdatedAt) :
    (tables.upsertProgress book now position clientUpdatedAt).Pending book since :=
  .inr ⟨_, with_progress_progress _,
    later.trans_le (execute_upsert_later _ _ _ (tables.progress book)).1⟩

end ReadingTables

section Steps

variable {state next : State}

/-- What is owed to a book's row stays owed while neither table loses anything dated later. -/
theorem OwesEntry.with_tables {row : SyncRow} (owes : OwesEntry state row)
    {tables : ReadingTables}
    (pending : state.tables.Pending row.bookUuid row.syncedAt →
      tables.Pending row.bookUuid row.syncedAt) :
    OwesEntry { state with tables := tables } row :=
  owes.imp_right fun later => later.imp_right pending

theorem told_set_read_status (sound : Sound state) (told : Told state) (book : Uuid)
    (status : ReadStatus) (heard : Heard state (.setReadStatus book status)) :
    Told { state with
      tables := state.tables.withStatus book
        (setReadStatus state.now status (state.tables.statuses book)) } := by
  intro other row isHeld
  have isBook := (Snapshot.held_eq_some isHeld).2
  by_cases same : other = book
  · subst same
    have still : OwesEntry state row → OwesEntry { state with
        tables := state.tables.withStatus other
          (setReadStatus state.now status (state.tables.statuses other)) } row := by
      intro owes
      apply owes.with_tables
      intro pending
      rw [isBook] at pending ⊢
      exact pending.with_status (sound.clocked.statuses other)
    rcases heard row isHeld with later | unchanged | owes
    · refine .inr (.inr (.inr ?_))
      rw [isBook]
      exact ReadingTables.pending_with_status later
    · rcases told other row isHeld with isStored | owes
      · refine .inl fun reading isReading => (isStored reading isReading).trans ?_
        exact (ReadingTables.stored_with_status unchanged).symm
      · exact .inr (still owes)
    · exact .inr (still owes)
  · have sameAt := ReadingTables.with_status_same_at state.tables
      (setReadStatus state.now status (state.tables.statuses book)) same
    rcases told other row isHeld with isStored | owes
    · exact .inl fun reading isReading => (isStored reading isReading).trans sameAt.stored
    · refine .inr (owes.with_tables fun pending => ?_)
      rw [isBook] at pending ⊢
      exact sameAt.pending pending

/-- A status dated by its event either lands, and its watermarks go back behind it, or leaves
the stored one. -/
theorem set_read_status_at_cases (now : Int) (status : ReadStatus) (eventAt : Int)
    (stored : Option ReadStatusRow) :
    (setReadStatusAt now status eventAt stored).updatedAt ≤ eventAt ∨
      stored = some (setReadStatusAt now status eventAt stored) := by
  cases stored with
  | none => exact .inl (min_le_left _ _)
  | some row =>
      unfold setReadStatusAt
      dsimp only
      split
      · exact .inl (min_le_left _ _)
      · exact .inr rfl

theorem told_set_read_status_at (told : Told state) (book : Uuid) (status : ReadStatus)
    (eventAt : Int) (record : ReadStatusRow)
    (isRecord : setReadStatusAt state.now status eventAt (state.tables.statuses book) = record) :
    Told { state with
      tables := state.tables.withStatus book record
      rows := state.reannounced book eventAt record } := by
  intro other row isHeld
  change (state.reannounced book eventAt record).held other = some row at isHeld
  have isBook := (Snapshot.held_eq_some isHeld).2
  unfold State.reannounced at isHeld
  by_cases same : other = book
  · subst same
    split at isHeld
    · rw [held_reannounce] at isHeld
      obtain ⟨old, _, rfl⟩ := Option.map_eq_some_iff.mp isHeld
      refine .inr (.inr (.inr ?_))
      rw [isBook]
      apply ReadingTables.pending_with_status
      split
      · change record.updatedAt - 1 < record.updatedAt
        omega
      · rename_i before
        rw [not_and, not_le] at before
        exact before rfl
    · rename_i late
      have kept : state.tables.statuses other = some record :=
        isRecord ▸ (set_read_status_at_cases _ _ _ _).resolve_left (isRecord ▸ late)
      have sameTables : state.tables.withStatus other record = state.tables := by
        unfold ReadingTables.withStatus
        rw [← kept, Function.update_eq_self]
      rcases told other row isHeld with isStored | owes
      · refine .inl fun reading isReading => (isStored reading isReading).trans ?_
        change _ = (state.tables.withStatus other record).stored other
        rw [sameTables]
      · refine .inr (owes.with_tables fun pending => ?_)
        rwa [sameTables]
  · have unmoved : state.rows.held other = some row := by
      split at isHeld
      · rw [held_reannounce] at isHeld
        obtain ⟨old, isOld, rfl⟩ := Option.map_eq_some_iff.mp isHeld
        rw [if_neg fun both => same both.1]
        exact isOld
      · exact isHeld
    have sameAt := ReadingTables.with_status_same_at state.tables record same
    rcases told other row unmoved with isStored | owes
    · exact .inl fun reading isReading => (isStored reading isReading).trans sameAt.stored
    · refine .inr (owes.with_tables fun pending => ?_)
      rw [isBook] at pending ⊢
      exact sameAt.pending pending

theorem stored_upsert_of_leaves {book : Uuid} {position : Position}
    {clientUpdatedAt : Option Int} (leaves : LeavesReading state book position clientUpdatedAt) :
    state.tables.stored book =
      (state.tables.upsertProgress book state.now position clientUpdatedAt).stored book := by
  obtain ⟨known, row, isRow, unchanged⟩ := leaves
  obtain ⟨status, isStatus⟩ := Option.isSome_iff_exists.mp known
  have samePosition :
      (executeUpsert state.now position clientUpdatedAt (some row)).position = row.position := by
    unfold executeUpsert
    dsimp only
    split
    · rename_i lands
      rcases unchanged with lost | same
      · rw [lost] at lands
        cases lands
      · exact same.symm
    · rfl
  unfold ReadingTables.upsertProgress
  dsimp only
  rw [ReadingTables.stored_eq, ReadingTables.stored_eq, ReadingTables.with_status_statuses,
    isStatus, isRow]
  change _ = (⟨status.status, Option.map _ ((state.tables.withProgress book _).progress book)⟩ :
    Reading)
  rw [ReadingTables.with_progress_progress]
  simp only [Option.map_some, Option.getD_some, samePosition]

theorem told_upsert_progress (told : Told state) (book : Uuid) (position : Position)
    (clientUpdatedAt : Option Int)
    (heard : Heard state (.upsertProgress book position clientUpdatedAt)) :
    Told { state with
      tables := state.tables.upsertProgress book state.now position clientUpdatedAt } := by
  intro other row isHeld
  have isBook := (Snapshot.held_eq_some isHeld).2
  by_cases same : other = book
  · subst same
    have still : OwesEntry state row → OwesEntry { state with
        tables := state.tables.upsertProgress other state.now position clientUpdatedAt } row := by
      intro owes
      apply owes.with_tables
      intro pending
      rw [isBook] at pending ⊢
      exact pending.upsert_progress _ _ _
    rcases heard row isHeld with later | leaves | owes
    · refine .inr (.inr (.inr ?_))
      rw [isBook]
      exact ReadingTables.pending_upsert_progress _ _ _ later
    · rcases told other row isHeld with isStored | owes
      · exact .inl fun reading isReading =>
          (isStored reading isReading).trans (stored_upsert_of_leaves leaves)
      · exact .inr (still owes)
    · exact .inr (still owes)
  · have sameAt : ReadingTables.SameAt state.tables
        (state.tables.upsertProgress book state.now position clientUpdatedAt) other := by
      constructor
      · exact (Function.update_of_ne same _ _).symm
      · exact (Function.update_of_ne same _ _).symm
    rcases told other row isHeld with isStored | owes
    · exact .inl fun reading isReading => (isStored reading isReading).trans sameAt.stored
    · refine .inr (owes.with_tables fun pending => ?_)
      rw [isBook] at pending ⊢
      exact sameAt.pending pending

theorem told_request (told : Told state) (fresh : Bool) (request : Request) :
    Told { state with rows := state.marked fresh, request := some request } := by
  intro book row isHeld
  change (state.marked fresh).held book = some row at isHeld
  unfold State.marked at isHeld
  split at isHeld
  · rw [Snapshot.held_mark_resend] at isHeld
    split at isHeld
    · obtain ⟨old, _, rfl⟩ := Option.map_eq_some_iff.mp isHeld
      exact .inr (.inl rfl)
    · exact told book row isHeld
  · exact told book row isHeld

theorem told_record (sound : Sound state) (told : Told state) {page : List Entitlement}
    (isPage : state.page = page.map (·.change))
    (carries : ∀ sent ∈ page, CarriesStored state sent) :
    Told { state with
      rows := recordSynced state.now state.rows (page.map (·.change))
      request := none
      delivered := state.delivered ++ page } := by
  have once := isPage ▸ sound.once
  have onceSent : (page.map Entitlement.book).Nodup := by
    rw [List.map_map] at once
    exact once
  intro book row isHeld
  change (recordSynced _ _ _).held book = some row at isHeld
  have isBook := (Snapshot.held_eq_some isHeld).2
  by_cases carried : book ∈ page.map Entitlement.book
  · obtain ⟨sent, member, rfl⟩ := List.mem_map.mp carried
    have nowShown : shown (state.delivered ++ page) sent.book = sent.reading := by
      unfold shown
      rw [Replica.apply_append, Replica.apply_of_mem _ _ onceSent member]
    by_cases isStored : ∀ reading, sent.reading = some reading →
        reading = state.tables.stored sent.book
    · exact .inl fun reading isReading => isStored reading (nowShown.symm.trans isReading)
    · obtain ⟨reading, isReading, other⟩ : ∃ reading, sent.reading = some reading ∧
          reading ≠ state.tables.stored sent.book := by
        simpa using isStored
      obtain ⟨edited, editedMem, sameBook, older⟩ :=
        (carries sent member reading isReading).resolve_left other
      refine .inr (.inr (.inl ⟨edited, editedMem, sameBook.trans isBook.symm, ?_⟩))
      have inChanges : sent.change ∈ page.map (·.change) := List.mem_map_of_mem member
      have settled := held_record_of_mem state.now state.rows once inChanges
      have isSettled : sent.change.settle state.now (state.rows.held sent.change.book) = some row :=
        settled.symm.trans isHeld
      have ahead := sound.ahead sent.change (isPage ▸ inChanges)
      cases isChange : sent.change with
      | new first | changed first =>
          rw [isChange] at isSettled
          cases isSettled
          exact older first (by rw [isChange]; rfl)
      | stateChanged first =>
          rw [isChange] at isSettled ahead
          obtain ⟨old, isOld, rfl⟩ := Option.map_eq_some_iff.mp isSettled
          have isSeen : state.rows.seen first.uuid = some old.lastModifiedSeen := by
            rw [Snapshot.seen, show state.rows.held first.uuid = some old from isOld]
            rfl
          exact (ahead first rfl _ isSeen).trans_lt (older first (by rw [isChange]; rfl))
      | removed uuid =>
          rw [isChange] at isSettled
          cases isSettled
  · have notNamed : book ∉ (page.map (·.change)).map (·.book) := by
      rwa [List.map_map]
    rw [held_record_of_not_mem notNamed] at isHeld
    rcases told book row isHeld with isStored | owes
    · refine .inl fun reading isReading => isStored reading ?_
      rw [← isReading]
      unfold shown
      rw [Replica.apply_append, Replica.apply_of_not_mem _ _ carried]
    · exact .inr owes

theorem told_edit_books (told : Told state) (uuid : Uuid) (change : Book → Book)
    (keeps : ∀ book, (change book).uuid = book.uuid)
    (later : ∀ book ∈ state.books, book.uuid = uuid →
      book.lastModified ≤ (change book).lastModified) :
    Told { state with books := editBooks state.books uuid change } := by
  intro other row isHeld
  rcases told other row isHeld with isStored | resend | ⟨book, bookMem, isBook, older⟩ | pending
  · exact .inl isStored
  · exact .inr (.inl resend)
  · refine .inr (.inr (.inl ⟨_, List.mem_map_of_mem bookMem, ?_⟩))
    split
    · rename_i same
      exact ⟨(keeps book).trans isBook, older.trans_le (later book bookMem same)⟩
    · exact ⟨isBook, older⟩
  · exact .inr (.inr (.inr pending))

end Steps

theorem told_step {state next : State} (sound : Sound state) (told : Told state)
    (action : Action) (heard : Heard state action) (stepped : step state action = some next) :
    Told next := by
  cases action with
  | wait seconds | shelve opted =>
      cases stepped
      exact told
  | serve book downloadable =>
      cases stepped
      exact told_edit_books told _ _ (by intro _; rfl) fun _ _ _ => le_rfl
  | edit book lastModified =>
      obtain ⟨later, rfl⟩ := step_edit stepped
      exact told_edit_books told _ _ (by intro _; rfl) (edited_later later)
  | setReadStatus book status =>
      cases stepped
      exact told_set_read_status sound told book status heard
  | setReadStatusAt book status eventAt =>
      cases stepped
      exact told_set_read_status_at told book status eventAt _ rfl
  | upsertProgress book position clientUpdatedAt =>
      cases stepped
      exact told_upsert_progress told book position clientUpdatedAt heard
  | request fresh =>
      obtain ⟨-, rfl⟩ := step_request stepped
      exact told_request told fresh _
  | readStates =>
      obtain ⟨changes, -, rfl⟩ := step_read_states stepped
      exact told
  | drop =>
      obtain rfl := step_drop stepped
      exact told
  | record =>
      obtain ⟨page, isAnswered, rfl⟩ := step_record stepped
      apply told_record sound told (Sound.page_of_answered page isAnswered)
      intro sent member
      apply heard sent
      rwa [State.answered, isAnswered]

theorem announced_of_owed {state : State} {row : SyncRow} {book : Uuid} (sound : Sound state)
    (isHeld : state.rows.held book = some row) (owes : OwesEntry state row)
    (isWanted : state.isWanted book) : ∃ change ∈ state.syncDelta, change.book = book := by
  obtain ⟨wanted, wantedMem, rfl⟩ := List.mem_map.mp isWanted
  have isBook := (Snapshot.held_eq_some isHeld).2
  cases isChange : changeFor state.rows state.tables wanted with
  | some change =>
      exact ⟨change, mem_delta.mpr (.inl ⟨wanted, wantedMem, isChange⟩), change_for_book isChange⟩
  | none =>
      obtain ⟨kept, isKept, unmarked, current, heardOf⟩ := change_for_eq_none.mp isChange
      obtain rfl : kept = row := Option.some.inj (isKept.symm.trans isHeld)
      rcases owes with resend | ⟨book, bookMem, sameBook, older⟩ | pending
      · rw [unmarked] at resend
        cases resend
      · obtain ⟨other, otherMem, rfl⟩ := mem_sync_books wantedMem
        have same : other = book := List.inj_on_of_nodup_map sound.books otherMem bookMem
          (isBook.symm.trans sameBook.symm)
        subst same
        exact absurd older (not_lt.mpr current)
      · rw [isBook] at pending
        obtain ⟨told, isTold, later⟩ := pending.state_updated
        exact absurd later (not_lt.mpr (heardOf told isTold))

structure Listening (state : State) : Prop where
  sound : Sound state
  told : Told state

theorem Listening.start {state : State} (started : Start state) : Listening state where
  sound := Sound.start started
  told book row isHeld := by
    rw [started.rows] at isHeld
    cases isHeld

/-- A device that was told something else of a synced book than the reader has now is sent an
entry for it, in every state of a run whose changes it hears of. -/
theorem no_reading_change_lost {first last : State} (actions : List Action)
    (started : Start first) (heard : Runs.Meets step Heard first actions)
    (ran : Runs.run step first actions = some last) (book : Uuid)
    (isWanted : last.isWanted book) (told : Reading)
    (isTold : shown last.delivered book = some told)
    (replaced : told ≠ last.tables.stored book) :
    ∃ change ∈ last.syncDelta, change.book = book := by
  have keeps : ∀ state action next, Listening state → Heard state action →
      step state action = some next → Listening next := by
    intro state action next ⟨sound, allTold⟩ heard stepped
    exact ⟨sound_step sound action stepped, told_step sound allTold action heard stepped⟩
  obtain ⟨sound, allTold⟩ := Runs.run_keeps step keeps actions (Listening.start started) heard ran
  cases isHeld : last.rows.held book with
  | none =>
      obtain ⟨wanted, wantedMem, rfl⟩ := List.mem_map.mp isWanted
      have isNew : changeFor last.rows last.tables wanted = some (.new wanted) := by
        unfold changeFor
        rw [isHeld]
      exact ⟨_, mem_delta.mpr (.inl ⟨wanted, wantedMem, isNew⟩), rfl⟩
  | some row =>
      have owes := (allTold book row isHeld).resolve_left fun isStored =>
        replaced (isStored told isTold)
      exact announced_of_owed sound isHeld owes isWanted

section Runs

def oneBook : State where
  now := 100
  books := [⟨"a", 5, true⟩]
  opted := ["a"]
  rows := []
  tables := ⟨fun _ => none, fun _ => none⟩
  request := none
  delivered := []

theorem one_book_start : Start oneBook where
  epoch := by decide
  clocked := ⟨nofun, nofun⟩
  books := by decide
  rows := rfl
  request := rfl
  delivered := rfl

def atPercent (percent : Int) : Position := ⟨none, some percent, none, none, none, none⟩

def syncedThen (later : Action) : List Action :=
  [.upsertProgress "a" (atPercent 10) (some 40), .request false, .readStates, .record, later]

/-- A status dated before the record is announced. -/
theorem no_reading_change_lost_of_one_book :
    ∃ last, Runs.run step oneBook (syncedThen (.setReadStatusAt "a" .finished 60)) = some last ∧
      ∃ change ∈ last.syncDelta, change.book = "a" :=
  ⟨_, rfl, no_reading_change_lost (syncedThen (.setReadStatusAt "a" .finished 60)) one_book_start
    (by decide +kernel) rfl "a"
    (by unfold State.isWanted; decide +kernel) ⟨.reading, some (atPercent 10)⟩
    (by decide +kernel) (by decide +kernel)⟩

/-- A position of another device that arrives late, dated before the record, is not. -/
theorem late_position_lost :
    ¬∀ (first last : State) (actions : List Action), Start first →
      Runs.run step first actions = some last → ∀ book, last.isWanted book →
        ∀ told, shown last.delivered book = some told → told ≠ last.tables.stored book →
          ∃ change ∈ last.syncDelta, change.book = book := by
  intro claimed
  have announced := claimed oneBook _
    (syncedThen (.upsertProgress "a" (atPercent 30) (some 50))) one_book_start rfl "a"
    (by unfold State.isWanted; decide +kernel)
    ⟨.reading, some (atPercent 10)⟩ (by decide +kernel) (by decide +kernel)
  revert announced
  decide +kernel

end Runs

end Omnibus.KoboSync
