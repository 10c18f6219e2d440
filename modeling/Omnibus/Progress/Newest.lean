import Mathlib.Algebra.Order.Ring.Int
import Omnibus.Library.Runs
import Omnibus.Merge.NewestWins

/-!
# Positions in any order of arrival

`upsert_progress` for one reader, book and format. Whatever order writes arrive in, the row
stored is the write with the largest event time so far, all of its columns together.
-/

namespace Omnibus.Progress

open Omnibus.Library.Sql Omnibus.Merge

structure ProgressRecord where
  epubCfi : Value
  audioPositionSeconds : Value
  progressPercent : Value
  koboLocation : Value
  bookFileId : Value
  updatedAt : Value
  clientUpdatedAt : Value
  deriving DecidableEq, Repr

structure Place where
  userId : Int
  book : Uuid
  format : String
  deriving DecidableEq, Repr

/-- One call: the update, the second it is received at and the book's audio files then. -/
structure Delivery where
  update : ProgressUpdate
  now : Int
  audioFiles : Nat
  deriving DecidableEq, Repr

section Model

variable (place : Place)

def Place.holds (row : DbRow) : Bool :=
  row .userId = .integer place.userId && row .bookUuid = .text place.book &&
    row .format = .text place.format

def heldAt (table : DbTable) : List DbRow := table.rows.filter place.holds

/-- `read_progress_row`, of the row. -/
def recordOf (row : DbRow) : ProgressRecord where
  epubCfi := row .epubCfi
  audioPositionSeconds := row .audioPositionSeconds
  progressPercent := row .progressPercent
  koboLocation := row .koboLocation
  bookFileId := row .bookFileId
  updatedAt := row .updatedAt
  clientUpdatedAt := eventTime row

def readProgressRow (table : DbTable) : Option ProgressRecord :=
  (heldAt place table).head?.map recordOf

/-- The table's `CHECK`s. -/
def satisfiesCheck (row : DbRow) : Bool :=
  (match row .progressPercent with
    | .integer percent => 0 ≤ percent && percent ≤ 100
    | other => other = .null) &&
  (row .format = .text "epub" && (row .epubCfi ≠ .null || row .progressPercent ≠ .null) &&
      row .audioPositionSeconds = .null ||
    row .format = .text "audio" && row .audioPositionSeconds ≠ .null && row .epubCfi = .null &&
      row .progressPercent = .null && row .koboLocation = .null &&
      row .koboSpentReadingMinutes = .null && row .koboRemainingTimeMinutes = .null &&
      row .koboStatisticsUpdatedAt = .null)

/-- `is_audio_teardown_zero_write`: near zero, over a row far into the same file. -/
def isAudioTeardownZeroWrite (update : ProgressUpdate) (stored : DbRow) : Bool :=
  let sameFile :=
    match update.bookFileId, stored .bookFileId with
    | some newFile, .integer oldFile => newFile = oldFile
    | _, _ => true
  match update.audioPositionSeconds, stored .audioPositionSeconds with
  | some newPosition, .real oldPosition => sameFile && newPosition < 1 && 600 < oldPosition
  | _, _ => false

def Delivery.offered (delivery : Delivery) (table : DbTable) : DbRow :=
  delivery.update.excluded delivery.now (table.nextRowid true)

/-- `upsert_koreader_progress_tx`: the table and the answer; none when a `CHECK` refuses. -/
def upsertProgress (table : DbTable) (delivery : Delivery) :
    Option (DbTable × ProgressRecord) :=
  if delivery.update.format = "audio" &&
      (heldAt place table).any (isAudioTeardownZeroWrite delivery.update) then
    (readProgressRow place table).map fun record => (table, record)
  else if satisfiesCheck (delivery.offered table) then
    let after := delivery.update.execute (fun _ => delivery.audioFiles) delivery.now table
    (readProgressRow place after).map fun record => (after, record)
  else none

def receive (table : DbTable) (delivery : Delivery) : Option DbTable :=
  (upsertProgress place table delivery).map (·.1)

end Model

section Statement

/-- The time of the reading, never later than the clock that receives it. -/
def Delivery.event (delivery : Delivery) : Int :=
  min (delivery.update.clientUpdatedAt.getD delivery.now) delivery.now

/-- A position of the place, with an anchor its format can have. -/
structure Delivery.IsPosition (place : Place) (delivery : Delivery) : Prop where
  userId : delivery.update.userId = place.userId
  book : delivery.update.bookUuid = place.book
  format : delivery.update.format = place.format
  checked : ∀ table, satisfiesCheck (delivery.offered table) = true

/-- A call no guard of the audio rows refuses. -/
def Unguarded (place : Place) (table : DbTable) (delivery : Delivery) : Prop :=
  delivery.update.format = "audio" → ∀ stored ∈ heldAt place table,
    filelessAudio (fun _ => delivery.audioFiles) delivery.update.bookUuid stored
        (delivery.offered table) = false ∧
      isAudioTeardownZeroWrite delivery.update stored = false

def IsNewest (received : List Delivery) (newest : Delivery) : Prop :=
  newest ∈ received ∧ ∀ other ∈ received, other.event ≤ newest.event

structure Carries (row : DbRow) (delivery : Delivery) : Prop where
  epubCfi : row .epubCfi = Column.ofSolidText delivery.update.epubCfi
  audioPositionSeconds :
    row .audioPositionSeconds = Column.ofReal delivery.update.audioPositionSeconds
  progressPercent : row .progressPercent = Column.ofInteger delivery.update.progressPercent
  koboLocation : row .koboLocation = Column.ofSolidText delivery.update.koboLocation
  bookFileId : row .bookFileId = Column.ofInteger delivery.update.bookFileId
  koreaderXpointer : row .koreaderXpointer = Column.ofText delivery.update.koreaderXpointer
  koreaderPercentage : row .koreaderPercentage = Column.ofReal delivery.update.koreaderPercentage
  clientUpdatedAt : row .clientUpdatedAt = .integer delivery.event

end Statement

section Calls

variable {place : Place} {table : DbTable} {delivery : Delivery}
  (position : delivery.IsPosition place)

theorem Carries.event_time {row : DbRow} (carries : Carries row delivery) :
    eventTime row = .integer delivery.event := by
  rw [eventTime, carries.clientUpdatedAt]
  rfl

theorem offered_carries (table : DbTable) : Carries (delivery.offered table) delivery where
  epubCfi := rfl
  audioPositionSeconds := rfl
  progressPercent := rfl
  koboLocation := rfl
  bookFileId := rfl
  koreaderXpointer := rfl
  koreaderPercentage := rfl
  clientUpdatedAt := rfl

theorem assigned_carries (stored : DbRow) (table : DbTable) :
    Carries (ProgressUpdate.assign stored (delivery.offered table)) delivery where
  epubCfi := rfl
  audioPositionSeconds := rfl
  progressPercent := rfl
  koboLocation := rfl
  bookFileId := rfl
  koreaderXpointer := rfl
  koreaderPercentage := rfl
  clientUpdatedAt := rfl

theorem assign_holds (stored excluded : DbRow) :
    place.holds (ProgressUpdate.assign stored excluded) = place.holds stored := rfl

theorem held_append (rowid : Int) (row : DbRow) :
    heldAt place (table.append rowid row) =
      heldAt place table ++ if place.holds row then [row] else [] := by
  unfold heldAt
  rw [Table.append_rows, List.filter_append, List.filter_singleton, Bool.cond_eq_ite]

theorem held_update (selects : DbRow → Bool) (change : DbRow → DbRow)
    (same : ∀ row, place.holds (change row) = place.holds row) :
    heldAt place (table.update selects change) =
      (heldAt place table).map fun row => if selects row then change row else row := by
  unfold heldAt
  rw [Table.update_rows, List.filter_map]
  have holds : (place.holds ∘ fun row => if selects row then change row else row) =
      place.holds := by
    funext row
    simp only [Function.comp]
    split
    · exact same row
    · rfl
  rw [holds]

include position

theorem offered_holds (table : DbTable) : place.holds (delivery.offered table) = true := by
  have user : delivery.offered table .userId = .integer delivery.update.userId := rfl
  have book : delivery.offered table .bookUuid = .text delivery.update.bookUuid := rfl
  have format : delivery.offered table .format = .text delivery.update.format := rfl
  simp [Place.holds, user, book, format, position.userId, position.book, position.format]

theorem agree_offered (stored : DbRow) :
    agree [.userId, .bookUuid, .format] stored (delivery.offered table) = place.holds stored := by
  have user : delivery.offered table .userId = .integer place.userId :=
    congrArg Value.integer position.userId
  have book : delivery.offered table .bookUuid = .text place.book :=
    congrArg Value.text position.book
  have format : delivery.offered table .format = .text place.format :=
    congrArg Value.text position.format
  rw [Bool.eq_iff_iff, agree_iff]
  simp only [List.mem_cons, List.not_mem_nil, or_false, forall_eq_or_imp, forall_eq, user, book,
    format, Place.holds, Bool.and_eq_true, decide_eq_true_eq]
  constructor
  · rintro ⟨⟨_, isUser⟩, ⟨_, isBook⟩, _, isFormat⟩
    exact ⟨⟨isUser, isBook⟩, isFormat⟩
  · rintro ⟨⟨isUser, isBook⟩, isFormat⟩
    rw [isUser, isBook, isFormat]
    exact ⟨⟨by simp, rfl⟩, ⟨by simp, rfl⟩, by simp, rfl⟩

theorem conflicts_offered : table.conflicts [[.userId, .bookUuid, .format]]
    (delivery.offered table) = !(heldAt place table).isEmpty := by
  rw [Bool.eq_iff_iff]
  simp only [Table.conflicts, List.any_eq_true, List.mem_singleton, exists_eq_left,
    agree_offered position, Bool.not_eq_true', List.isEmpty_eq_false_iff, heldAt, ne_eq,
    List.filter_eq_nil_iff, not_forall, not_not, exists_prop]

theorem held_after_first (fresh : heldAt place table = []) :
    heldAt place (delivery.update.execute (fun _ => delivery.audioFiles) delivery.now table) =
      [delivery.offered table] := by
  have free : table.conflicts [[.userId, .bookUuid, .format]] (delivery.offered table) =
      false := by
    rw [conflicts_offered position, fresh]
    rfl
  have executed : delivery.update.execute (fun _ => delivery.audioFiles) delivery.now table =
      table.append (table.nextRowid true) (delivery.offered table) :=
    if_neg (Bool.eq_false_iff.mp free)
  rw [executed, held_append, fresh, offered_holds position, if_pos rfl, List.nil_append]

/-- Over a stored position the row is rewritten where both guards of the statement pass. -/
theorem held_after_over {stored : DbRow} (held : heldAt place table = [stored]) :
    heldAt place (delivery.update.execute (fun _ => delivery.audioFiles) delivery.now table) =
      [if newestWins stored (delivery.offered table) &&
          !filelessAudio (fun _ => delivery.audioFiles) delivery.update.bookUuid stored
            (delivery.offered table) then
        ProgressUpdate.assign stored (delivery.offered table) else stored] := by
  have isHeld : stored ∈ heldAt place table := held ▸ List.mem_cons_self
  obtain ⟨member, isPlace⟩ := List.mem_filter.mp isHeld
  have executed := delivery.update.execute_over_stored (fun _ => delivery.audioFiles)
    delivery.now table member ((agree_offered position stored).trans isPlace)
  have after := @held_update place table
    (fun row => agree [.userId, .bookUuid, .format] row (delivery.offered table) &&
      newestWins row (delivery.offered table) &&
      !filelessAudio (fun _ => delivery.audioFiles) delivery.update.bookUuid row
        (delivery.offered table))
    (fun row => ProgressUpdate.assign row (delivery.offered table))
    (fun row => assign_holds row _)
  rw [held, List.map_singleton, agree_offered position, isPlace, Bool.true_and] at after
  rw [executed]
  exact after

theorem upsert_first (fresh : heldAt place table = []) :
    ∃ after row, upsertProgress place table delivery = some (after, recordOf row) ∧
      heldAt place after = [row] ∧ Carries row delivery := by
  have held := held_after_first position fresh
  refine ⟨_, delivery.offered table, ?_, held, offered_carries table⟩
  unfold upsertProgress
  simp only [fresh, List.any_nil, Bool.and_false, Bool.false_eq_true, if_false,
    position.checked table, if_true, readProgressRow, held]
  rfl

/-- A later position is stored over an earlier one whole, and an older one not at all. -/
theorem upsert_over {stored : DbRow} (held : heldAt place table = [stored])
    {earlier : Delivery} (carries : Carries stored earlier)
    (unguarded : Unguarded place table delivery) :
    ∃ after row, upsertProgress place table delivery = some (after, recordOf row) ∧
      heldAt place after = [row] ∧
      (earlier.event ≤ delivery.event → Carries row delivery) ∧
      (delivery.event < earlier.event → row = stored) := by
  have isHeld : stored ∈ heldAt place table := held ▸ List.mem_cons_self
  have notTeardown : (delivery.update.format = "audio" &&
      (heldAt place table).any (isAudioTeardownZeroWrite delivery.update)) = false := by
    rw [held, List.any_cons, List.any_nil, Bool.or_false, Bool.and_eq_false_iff]
    by_cases audio : delivery.update.format = "audio"
    · exact .inr (unguarded audio stored isHeld).2
    · exact .inl (decide_eq_false audio)
  have notFileless : filelessAudio (fun _ => delivery.audioFiles) delivery.update.bookUuid stored
      (delivery.offered table) = false := by
    by_cases audio : delivery.update.format = "audio"
    · exact (unguarded audio stored isHeld).1
    · have format : delivery.offered table .format = .text delivery.update.format := rfl
      simp [filelessAudio, format, audio]
  have newest : newestWins stored (delivery.offered table) =
      decide (earlier.event ≤ delivery.event) := by
    rw [newestWins, carries.event_time, (offered_carries table).clientUpdatedAt]
    rfl
  have after := held_after_over position held
  rw [newest, notFileless] at after
  refine ⟨_, _, ?_, after, fun later => ?_, fun older => ?_⟩
  · unfold upsertProgress
    rw [notTeardown, if_neg Bool.false_ne_true, if_pos (position.checked table)]
    dsimp only
    rw [readProgressRow]
    exact congrArg (fun rows : List DbRow => (rows.head?.map recordOf).map (Prod.mk _)) after
  · rw [if_pos (by simpa using later)]
    exact assigned_carries stored table
  · rw [if_neg (by simpa using older)]

end Calls

section Runs

open Library.Runs

variable {place : Place} {table : DbTable}

/-- What is stored after some deliveries: the newest of them, or nothing yet. -/
def Kept (place : Place) (received : List Delivery) (table : DbTable) : Prop :=
  (received = [] ∧ heldAt place table = []) ∨
    ∃ row newest, heldAt place table = [row] ∧ IsNewest received newest ∧ Carries row newest

theorem newest_concat {received : List Delivery} {newest last : Delivery}
    (isNewest : IsNewest received newest) :
    IsNewest (received ++ [last]) (if newest.event ≤ last.event then last else newest) := by
  obtain ⟨member, bound⟩ := isNewest
  split
  · next later =>
      refine ⟨List.mem_append_right _ List.mem_cons_self, fun other otherMem => ?_⟩
      rcases List.mem_append.mp otherMem with earlier | isLast
      · exact (bound other earlier).trans later
      · exact le_of_eq (congrArg Delivery.event (List.mem_singleton.mp isLast))
  · next older =>
      refine ⟨List.mem_append_left _ member, fun other otherMem => ?_⟩
      rcases List.mem_append.mp otherMem with earlier | isLast
      · exact bound other earlier
      · rw [List.mem_singleton.mp isLast]
        exact (not_le.mp older).le

theorem upsert_kept {received : List Delivery} {delivery : Delivery}
    (kept : Kept place received table) (position : delivery.IsPosition place)
    (unguarded : Unguarded place table delivery) :
    ∃ after row newest, upsertProgress place table delivery = some (after, recordOf row) ∧
      heldAt place after = [row] ∧ IsNewest (received ++ [delivery]) newest ∧
      Carries row newest := by
  rcases kept with ⟨rfl, fresh⟩ | ⟨stored, newest, held, isNewest, carries⟩
  · obtain ⟨after, row, called, afterHeld, rowCarries⟩ := upsert_first position fresh
    refine ⟨after, row, delivery, called, afterHeld, ⟨List.mem_cons_self, ?_⟩, rowCarries⟩
    intro other member
    exact le_of_eq (congrArg Delivery.event (List.mem_singleton.mp member))
  · obtain ⟨after, row, called, afterHeld, later, older⟩ :=
      upsert_over position held carries unguarded
    refine ⟨after, row, _, called, afterHeld, newest_concat isNewest, ?_⟩
    split
    · next isLater => exact later isLater
    · next isOlder =>
        rw [older (not_le.mp isOlder)]
        exact carries

theorem run_kept (received rest : List Delivery) (kept : Kept place received table)
    (positions : ∀ delivery ∈ rest, delivery.IsPosition place)
    (quiet : Meets (receive place) (Unguarded place) table rest) :
    ∃ last, run (receive place) table rest = some last ∧ Kept place (received ++ rest) last := by
  induction rest generalizing received table with
  | nil => exact ⟨table, rfl, by rwa [List.append_nil]⟩
  | cons delivery rest ih =>
      obtain ⟨after, row, newest, called, held, isNewest, carries⟩ :=
        upsert_kept kept (positions delivery List.mem_cons_self) quiet.1
      have stepped : receive place table delivery = some after := by
        rw [receive, called]
        rfl
      obtain ⟨last, ran, lastKept⟩ := ih (received ++ [delivery])
        (.inr ⟨row, newest, held, isNewest, carries⟩)
        (fun other member => positions other (List.mem_cons_of_mem _ member))
        (quiet.tail (receive place) stepped)
      refine ⟨last, ?_, by rwa [List.append_assoc] at lastKept⟩
      rw [run, stepped]
      exact ran

theorem Carries.congr {row : DbRow} {left right : Delivery} (carries : Carries row left)
    (event : left.event = right.event) (update : left.update = right.update) :
    Carries row right := by
  obtain ⟨cfi, position, percent, location, file, xpointer, percentage, time⟩ := carries
  rw [update] at cfi position percent location file xpointer percentage
  rw [event] at time
  exact ⟨cfi, position, percent, location, file, xpointer, percentage, time⟩

end Runs

/-- Positions converge to the newest in any order of arrival: every call answers the row then
stored, and that row is the write of the largest event time so far. Audio writes do so as long
as neither guard refuses one. -/
theorem newest_position_kept (place : Place) (table : DbTable) (received : List Delivery)
    (last : Delivery) (fresh : heldAt place table = [])
    (positions : ∀ delivery ∈ received ++ [last], delivery.IsPosition place)
    (distinct : ∀ left ∈ received ++ [last], ∀ right ∈ received ++ [last],
      left.event = right.event → left.update = right.update)
    (quiet : place.format = "epub" ∨
      Library.Runs.Meets (receive place) (Unguarded place) table (received ++ [last])) :
    ∃ before after row, Library.Runs.run (receive place) table received = some before ∧
      upsertProgress place before last = some (after, recordOf row) ∧
      heldAt place after = [row] ∧
      (∃ newest, IsNewest (received ++ [last]) newest) ∧
      ∀ newest, IsNewest (received ++ [last]) newest → Carries row newest := by
  have meets : Library.Runs.Meets (receive place) (Unguarded place) table
      (received ++ [last]) := by
    rcases quiet with epub | meets
    · apply Library.Runs.Meets.of_forall _ table _
      intro delivery member _ audio
      rw [(positions delivery member).format, epub] at audio
      exact absurd audio (by decide)
    · exact meets
  obtain ⟨earlier, atLast⟩ := meets.concat
  obtain ⟨before, ran, kept⟩ := run_kept [] received (.inl ⟨rfl, fresh⟩)
    (fun delivery member => positions delivery (List.mem_append_left _ member)) earlier
  rw [List.nil_append] at kept
  obtain ⟨after, row, newest, called, held, isNewest, carries⟩ := upsert_kept kept
    (positions last (List.mem_append_right _ List.mem_cons_self)) (atLast before ran)
  refine ⟨before, after, row, ran, called, held, ⟨newest, isNewest⟩, fun other isOther => ?_⟩
  have same : newest.event = other.event :=
    le_antisymm (isOther.2 newest isNewest.1) (isNewest.2 other isOther.1)
  exact carries.congr same (distinct newest isNewest.1 other isOther.1 same)

section Examples

/-- Reader 1 at `percent` of an EPUB, read at `event`. -/
def pageTurn (percent event : Int) : ProgressUpdate where
  userId := 1
  bookUuid := "b"
  format := "epub"
  epubCfi := none
  audioPositionSeconds := none
  progressPercent := some percent
  koboLocation := none
  bookFileId := none
  koreaderXpointer := none
  koreaderPercentage := none
  clientUpdatedAt := some event

/-- Reader 1 at `seconds` of an audio book, heard at `event`. -/
def listened (seconds : Rat) (event : Int) : ProgressUpdate where
  userId := 1
  bookUuid := "b"
  format := "audio"
  epubCfi := none
  audioPositionSeconds := some seconds
  progressPercent := none
  koboLocation := none
  bookFileId := none
  koreaderXpointer := none
  koreaderPercentage := none
  clientUpdatedAt := some event

/-- An earlier page replayed twice, and the start of the next audio file after an hour in one. -/
theorem deliveries_keep_newest :
    (∃ after row, heldAt ⟨1, "b", "epub"⟩ after = [row] ∧ Carries row ⟨pageTurn 70 20, 30, 0⟩) ∧
      ∃ after row, heldAt ⟨1, "b", "audio"⟩ after = [row] ∧
        Carries row ⟨{ listened 0 20 with bookFileId := some 2 }, 20, 2⟩ := by
  constructor
  · obtain ⟨_, after, row, _, _, held, _, newest⟩ := newest_position_kept ⟨1, "b", "epub"⟩
      (Table.ofRows []) [⟨pageTurn 70 20, 30, 0⟩, ⟨pageTurn 40 10, 31, 0⟩] ⟨pageTurn 40 10, 32, 0⟩
      rfl
      (by
        simp only [List.cons_append, List.nil_append, List.forall_mem_cons, List.not_mem_nil,
          false_implies, implies_true, and_true]
        exact ⟨⟨rfl, rfl, rfl, fun _ => rfl⟩, ⟨rfl, rfl, rfl, fun _ => rfl⟩,
          ⟨rfl, rfl, rfl, fun _ => rfl⟩⟩)
      (by decide) (.inl rfl)
    exact ⟨after, row, held, newest _ (by unfold IsNewest; decide)⟩
  · obtain ⟨_, after, row, _, _, held, _, newest⟩ := newest_position_kept ⟨1, "b", "audio"⟩
      (Table.ofRows []) [⟨{ listened 3600 10 with bookFileId := some 1 }, 10, 2⟩]
      ⟨{ listened 0 20 with bookFileId := some 2 }, 20, 2⟩ rfl
      (by
        simp only [List.cons_append, List.nil_append, List.forall_mem_cons, List.not_mem_nil,
          false_implies, implies_true, and_true]
        exact ⟨⟨rfl, rfl, rfl, fun _ => rfl⟩, ⟨rfl, rfl, rfl, fun _ => rfl⟩⟩)
      (by decide) (.inr (by unfold Unguarded; decide +kernel))
    exact ⟨after, row, held, newest _ (by unfold IsNewest; decide)⟩

end Examples

end Omnibus.Progress
