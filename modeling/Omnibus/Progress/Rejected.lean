import Omnibus.Progress.Ledger
import Omnibus.Progress.Newest

/-!
# What a rejected position accrues

The position and the ledger of one reader, book and format. `upsert_progress` observes the row it
leaves in its own transaction; an attach of a derived percent or location changes the row first
and observes it in a second transaction.
-/

namespace Omnibus.Progress

open Omnibus.Library.Sql Omnibus.Merge Sitting

structure Reading where
  table : DbTable
  ledger : Ledger
  /-- What attaches wrote to the row and have not observed, whether or not they still will. -/
  unobserved : List Observation

def observationOf (record : ProgressRecord) : Option Observation :=
  match record.progressPercent, record.clientUpdatedAt with
  | .integer percent, .integer time => some ⟨percent, time⟩
  | _, _ => none

section Model

variable (place : Place)

def teardownRefuses (table : DbTable) (delivery : Delivery) : Bool :=
  delivery.update.format = "audio" &&
    (heldAt place table).any (isAudioTeardownZeroWrite delivery.update)

/-- `upsert_progress`, with the ledger; a refusing `CHECK` rolls the transaction back. -/
def Reading.upsert (reading : Reading) (delivery : Delivery) : Reading :=
  match upsertProgress place reading.table delivery with
  | none => reading
  | some (after, record) =>
      -- a teardown write returns before the ledger
      if teardownRefuses place reading.table delivery then reading
      else { reading with
        table := after
        ledger := reading.ledger.observeAll (observationOf record).toList }

/-- The `UPDATE` of an attach, and what is to be observed of the row it changed. -/
def Reading.attach (selects : DbRow → Bool) (change : DbRow → DbRow)
    (observed : DbRow → Option Observation) (reading : Reading) : Reading :=
  let rows := (heldAt place reading.table).filter selects
  if rows.all fun row => satisfiesCheck (change row) then
    { reading with
      table := reading.table.update (fun row => place.holds row && selects row) change
      unobserved := reading.unobserved ++ rows.filterMap observed }
  else reading

/-- An EPUB row whose column is still empty, at the event time the caller read. -/
def awaits (column : ColumnName) (expected : Int) (row : DbRow) : Bool :=
  row .format = .text "epub" && row column = .null && eventTime row = .integer expected

def withPercent (percent : Int) (row : DbRow) : DbRow :=
  Function.update row .progressPercent (.integer percent)

def withLocation (location : String) (percent : Option Int) (row : DbRow) : DbRow :=
  Function.update (Function.update row .koboLocation (.text location)) .progressPercent
    ((row .progressPercent).coalesce (Column.ofInteger percent))

def Reading.attachDerivedPercent (percent expected : Int) : Reading → Reading :=
  Reading.attach place (awaits .progressPercent expected) (withPercent percent)
    fun _ => some ⟨percent, expected⟩

def Reading.attachDerivedKoboLocation (location : String) (percent : Option Int)
    (expected : Int) : Reading → Reading :=
  Reading.attach place (awaits .koboLocation expected) (withLocation location percent) fun row =>
    match withLocation location percent row .progressPercent with
    | .integer settled => some ⟨settled, expected⟩
    | _ => none

inductive Write where
  | upsert (delivery : Delivery)
  | attachPercent (percent expected : Int)
  | attachLocation (location : String) (percent : Option Int) (expected : Int)
  /-- `observe_percent`, of what an attach wrote. -/
  | observe (observation : Observation)

def Reading.step (reading : Reading) : Write → Option Reading
  | .upsert delivery => some (reading.upsert place delivery)
  | .attachPercent percent expected => some (reading.attachDerivedPercent place percent expected)
  | .attachLocation location percent expected =>
      some (reading.attachDerivedKoboLocation place location percent expected)
  | .observe observation =>
      if observation ∈ reading.unobserved then
        some { reading with
          ledger := reading.ledger.observePercentTx observation
          unobserved := reading.unobserved.erase observation }
      else none

end Model

section Statement

/-- A position of the place, whether or not the table's checks accept it. -/
structure Delivery.OfPlace (place : Place) (delivery : Delivery) : Prop where
  userId : delivery.update.userId = place.userId
  book : delivery.update.bookUuid = place.book
  format : delivery.update.format = place.format

/-- The write reaches the statement, and the guards in its `WHERE` keep the stored row. -/
def losesGuard (place : Place) (table : DbTable) (delivery : Delivery) : Bool :=
  !teardownRefuses place table delivery && satisfiesCheck (delivery.offered table) &&
    (heldAt place table).any fun stored =>
      !(newestWins stored (delivery.offered table) &&
        !filelessAudio (fun _ => delivery.audioFiles) delivery.update.bookUuid stored
          (delivery.offered table))

def sitting (ledger : Ledger) : Option (Int × Option Int) :=
  ledger.mark.map fun mark => (mark.sittingMaxPercent, mark.sittingObservedAt)

def AccruesNothing (before after : Ledger) : Prop :=
  after.slots = before.slots ∧ sitting after = sitting before

/-- The mark is at the percent or above it, and its clock at the event time or after it. -/
def Covered (ledger : Ledger) (observation : Observation) : Prop :=
  ∃ mark clock, ledger.mark = some mark ∧ mark.sittingObservedAt = some clock ∧
    observation.clamped ≤ mark.sittingMaxPercent ∧ observation.observedAt ≤ clock

/-- What is still unobserved of the stored row is covered all the same. -/
def Settled (place : Place) (reading : Reading) : Prop :=
  ∀ observation ∈ reading.unobserved, ∀ row ∈ heldAt place reading.table,
    observationOf (recordOf row) = some observation → Covered reading.ledger observation

end Statement

section Observing

variable {ledger : Ledger} {observation : Observation}

theorem observed_mark (ledger : Ledger) (observation : Observation) :
    (ledger.observePercentTx observation).mark = some ⟨(ledger.measured observation).1,
      some (nextClock ledger.mark observation.observedAt), observation.observedAt⟩ := rfl

theorem clamped_le_measured (ledger : Ledger) (observation : Observation) :
    observation.clamped ≤ (ledger.measured observation).1 := by
  unfold Ledger.measured
  cases ledger.mark with
  | none => exact le_rfl
  | some mark =>
      simp only [sittingGain]
      split_ifs
      · exact le_max_right ..
      · exact le_rfl

theorem covered_observe (ledger : Ledger) (observation : Observation) :
    Covered (ledger.observePercentTx observation) observation :=
  ⟨_, _, observed_mark ledger observation, rfl, clamped_le_measured ledger observation,
    le_max_right ..⟩

theorem covered_continues {earlier : Observation} {mark : Mark} {clock : Int}
    (stored : ledger.mark = some mark) (isClock : mark.sittingObservedAt = some clock)
    (le : earlier.observedAt ≤ clock) :
    ledger.measured earlier =
      (max mark.sittingMaxPercent earlier.clamped,
        max (earlier.clamped - mark.sittingMaxPercent) 0) ∧
      nextClock ledger.mark earlier.observedAt = clock := by
  have near : decide (earlier.observedAt - clock ≤ idleGapSecs) = true := by
    apply decide_eq_true
    unfold idleGapSecs
    omega
  constructor
  · simp only [Ledger.measured, stored, sittingGain, isClock, Option.any_some, near, if_true]
  · simp only [nextClock, stored, Option.bind_some, isClock, Option.getD_some]
    exact max_eq_left le

theorem covered_kept {earlier : Observation} (covered : Covered ledger observation)
    (le : earlier.observedAt ≤ observation.observedAt) :
    Covered (ledger.observePercentTx earlier) observation := by
  obtain ⟨mark, clock, stored, isClock, below, past⟩ := covered
  obtain ⟨measured, sameClock⟩ := covered_continues stored isClock (le.trans past)
  refine ⟨_, clock, observed_mark ledger earlier, congrArg some sameClock, ?_, past⟩
  rw [measured]
  exact below.trans (le_max_left ..)

theorem covered_accrues_nothing (covered : Covered ledger observation) :
    AccruesNothing ledger (ledger.observePercentTx observation) := by
  obtain ⟨mark, clock, stored, isClock, below, past⟩ := covered
  obtain ⟨measured, sameClock⟩ := covered_continues stored isClock past
  have noGain : max (observation.clamped - mark.sittingMaxPercent) 0 ≤ 0 := by omega
  constructor
  · simp only [Ledger.observePercentTx, measured, if_pos noGain]
  · rw [sitting, observed_mark, measured, sameClock, sitting, stored, Option.map_some,
      Option.map_some, isClock, max_eq_left below]

theorem covered_of_accrues_nothing
    (nothing : AccruesNothing ledger (ledger.observePercentTx observation)) :
    Covered ledger observation := by
  obtain ⟨mark, clock, stored, isClock, below, past⟩ := covered_observe ledger observation
  have same := nothing.2
  simp only [sitting, stored, Option.map_some] at same
  obtain ⟨own, isOwn, equal⟩ := Option.map_eq_some_iff.mp same.symm
  rw [Prod.mk.injEq] at equal
  exact ⟨own, clock, isOwn, equal.2.trans isClock, equal.1 ▸ below, past⟩

end Observing

section Tracked

/-- What every run keeps: at most one row, whose percent is covered or still to be observed, and
nothing is to be observed of a later time than the row's. -/
structure Tracked (place : Place) (reading : Reading) : Prop where
  single : ∃ stored : Option DbRow, heldAt place reading.table = stored.toList
  known : ∀ row ∈ heldAt place reading.table, ∀ observation,
    observationOf (recordOf row) = some observation →
      Covered reading.ledger observation ∨ observation ∈ reading.unobserved
  behind : ∀ observation ∈ reading.unobserved, ∃ row ∈ heldAt place reading.table, ∃ time,
    eventTime row = .integer time ∧ observation.observedAt ≤ time

variable {place : Place} {reading : Reading}

theorem Tracked.same_row (tracked : Tracked place reading) {left right : DbRow}
    (isLeft : left ∈ heldAt place reading.table) (isRight : right ∈ heldAt place reading.table) :
    left = right := by
  obtain ⟨stored, isStored⟩ := tracked.single
  rw [isStored, Option.mem_toList] at isLeft isRight
  exact Option.some.inj (isLeft.symm.trans isRight)

theorem observation_time {row : DbRow} {observation : Observation}
    (observed : observationOf (recordOf row) = some observation) :
    eventTime row = .integer observation.observedAt := by
  unfold observationOf at observed
  split at observed
  · rename_i isTime
    rw [← Option.some.inj observed]
    exact isTime
  · cases observed

theorem awaits_time {column : ColumnName} {expected : Int} {row : DbRow}
    (selected : awaits column expected row = true) : eventTime row = .integer expected := by
  simp only [awaits, Bool.and_eq_true, decide_eq_true_eq] at selected
  exact selected.2

theorem held_attach (selects : DbRow → Bool) (change : DbRow → DbRow) (table : DbTable)
    (same : ∀ row, place.holds (change row) = place.holds row) :
    heldAt place (table.update (fun row => place.holds row && selects row) change) =
      (heldAt place table).map fun row => if selects row then change row else row := by
  rw [held_update _ _ same]
  apply List.map_congr_left
  intro row member
  rw [(List.mem_filter.mp member).2, Bool.true_and]

/-- An attach changes a row at its own event time and leaves the new percent to be observed. -/
theorem attach_tracked {selects : DbRow → Bool} {change : DbRow → DbRow}
    {observed : DbRow → Option Observation} (tracked : Tracked place reading)
    (same : ∀ row, place.holds (change row) = place.holds row)
    (timed : ∀ row, eventTime (change row) = eventTime row)
    (writes : ∀ row, selects row = true → ∀ observation,
      observationOf (recordOf (change row)) = some observation → observed row = some observation)
    (current : ∀ row, selects row = true → ∀ observation, observed row = some observation →
      eventTime row = .integer observation.observedAt) :
    Tracked place (reading.attach place selects change observed) := by
  unfold Reading.attach
  dsimp only
  split_ifs with checked
  · obtain ⟨stored, isStored⟩ := tracked.single
    have held := held_attach selects change reading.table same
    constructor
    · refine ⟨stored.map fun row => if selects row then change row else row, ?_⟩
      dsimp only
      rw [held, isStored]
      cases stored <;> rfl
    · intro row member observation isObservation
      dsimp only at member ⊢
      rw [held] at member
      obtain ⟨old, isOld, isRow⟩ := List.mem_map.mp member
      rw [← isRow] at isObservation
      split_ifs at isObservation with selected
      · apply Or.inr
        apply List.mem_append_right
        exact List.mem_filterMap.mpr ⟨old, List.mem_filter.mpr ⟨isOld, selected⟩,
          writes old selected observation isObservation⟩
      · rcases tracked.known old isOld observation isObservation with covered | pending
        · exact Or.inl covered
        · exact Or.inr (List.mem_append_left _ pending)
    · intro observation member
      have placed (old : DbRow) (isOld : old ∈ heldAt place reading.table) (time : Int)
          (isTime : eventTime old = .integer time) (le : observation.observedAt ≤ time) :
          ∃ row ∈ heldAt place (reading.table.update
              (fun row => place.holds row && selects row) change), ∃ time,
            eventTime row = .integer time ∧ observation.observedAt ≤ time := by
        refine ⟨_, held ▸ List.mem_map_of_mem isOld, time, ?_, le⟩
        split_ifs
        · rw [timed, isTime]
        · exact isTime
      rcases List.mem_append.mp member with before | isNew
      · obtain ⟨old, isOld, time, isTime, le⟩ := tracked.behind observation before
        exact placed old isOld time isTime le
      · obtain ⟨old, own, isObserved⟩ := List.mem_filterMap.mp isNew
        obtain ⟨isOld, selected⟩ := List.mem_filter.mp own
        exact placed old isOld _ (current old selected observation isObserved) le_rfl
  · exact tracked

theorem attach_percent_tracked (tracked : Tracked place reading) (percent expected : Int) :
    Tracked place (reading.attachDerivedPercent place percent expected) := by
  apply attach_tracked tracked
  · intro row
    rfl
  · intro row
    rfl
  · intro row selected observation isObservation
    have time : eventTime (withPercent percent row) = .integer expected :=
      (awaits_time selected : eventTime row = _)
    have percented : withPercent percent row .progressPercent = .integer percent := rfl
    rw [observationOf] at isObservation
    simp only [recordOf, time, percented] at isObservation
    exact isObservation
  · intro row selected observation isObserved
    rw [← Option.some.inj isObserved]
    exact awaits_time selected

theorem attach_location_tracked (tracked : Tracked place reading) (location : String)
    (percent : Option Int) (expected : Int) :
    Tracked place (reading.attachDerivedKoboLocation place location percent expected) := by
  apply attach_tracked tracked
  · intro row
    rfl
  · intro row
    rfl
  · intro row selected observation isObservation
    have time : eventTime (withLocation location percent row) = .integer expected :=
      (awaits_time selected : eventTime row = _)
    rw [observationOf] at isObservation
    simp only [recordOf, time] at isObservation
    cases settled : withLocation location percent row .progressPercent with
    | integer percent =>
        rw [settled] at isObservation
        exact isObservation
    | _ =>
        rw [settled] at isObservation
        cases isObservation
  · intro row selected observation isObserved
    split at isObserved
    · rw [← Option.some.inj isObserved]
      exact awaits_time selected
    · cases isObserved

variable {delivery : Delivery}

theorem OfPlace.position (own : delivery.OfPlace place) {table : DbTable}
    (checked : satisfiesCheck (delivery.offered table) = true) : delivery.IsPosition place :=
  ⟨own.userId, own.book, own.format, fun _ => checked⟩

def overwritten (delivery : Delivery) (table : DbTable) (stored : DbRow) : DbRow :=
  if newestWins stored (delivery.offered table) &&
      !filelessAudio (fun _ => delivery.audioFiles) delivery.update.bookUuid stored
        (delivery.offered table) then
    ProgressUpdate.assign stored (delivery.offered table)
  else stored

/-- The row that an upsert leaves is observed, in the same transaction. -/
structure Answered (place : Place) (reading after : Reading) (row : DbRow) : Prop where
  held : heldAt place after.table = [row]
  ledger : after.ledger = reading.ledger.observeAll (observationOf (recordOf row)).toList
  unobserved : after.unobserved = reading.unobserved

theorem upsert_answers {row : DbRow}
    (reaches : teardownRefuses place reading.table delivery = false)
    (checked : satisfiesCheck (delivery.offered reading.table) = true)
    (held : heldAt place (delivery.update.execute (fun _ => delivery.audioFiles) delivery.now
      reading.table) = [row]) : Answered place reading (reading.upsert place delivery) row := by
  have called : upsertProgress place reading.table delivery =
      some (delivery.update.execute (fun _ => delivery.audioFiles) delivery.now reading.table,
        recordOf row) := by
    unfold upsertProgress
    rw [← teardownRefuses, reaches, if_neg Bool.false_ne_true, if_pos checked]
    dsimp only
    rw [readProgressRow, held]
    rfl
  have upserted : reading.upsert place delivery = { reading with
      table := delivery.update.execute (fun _ => delivery.audioFiles) delivery.now reading.table
      ledger := reading.ledger.observeAll (observationOf (recordOf row)).toList } := by
    unfold Reading.upsert
    rw [called]
    dsimp only
    rw [reaches, if_neg Bool.false_ne_true]
  rw [upserted]
  exact ⟨held, rfl, rfl⟩

theorem upsert_cases (own : delivery.OfPlace place) (tracked : Tracked place reading) :
    reading.upsert place delivery = reading ∨
      (heldAt place reading.table = [] ∧ Answered place reading (reading.upsert place delivery)
        (delivery.offered reading.table)) ∨
      ∃ stored, heldAt place reading.table = [stored] ∧
        Answered place reading (reading.upsert place delivery)
          (overwritten delivery reading.table stored) := by
  cases reaches : teardownRefuses place reading.table delivery with
  | true =>
      apply Or.inl
      unfold Reading.upsert
      split
      · rfl
      · rw [reaches, if_pos rfl]
  | false =>
      cases checked : satisfiesCheck (delivery.offered reading.table) with
      | false =>
          have refused : upsertProgress place reading.table delivery = none := by
            unfold upsertProgress
            rw [← teardownRefuses, reaches, if_neg Bool.false_ne_true, checked,
              if_neg Bool.false_ne_true]
          apply Or.inl
          unfold Reading.upsert
          rw [refused]
      | true =>
          have position := OfPlace.position own checked
          obtain ⟨stored, isStored⟩ := tracked.single
          apply Or.inr
          cases stored with
          | none =>
              exact Or.inl ⟨isStored, upsert_answers reaches checked
                (held_after_first position isStored)⟩
          | some stored =>
              exact Or.inr ⟨stored, isStored, upsert_answers reaches checked
                (held_after_over position isStored)⟩

theorem answered_known {after : Reading} {row : DbRow} (answered : Answered place reading after row)
    {observation : Observation} (observed : observationOf (recordOf row) = some observation) :
    after.ledger = reading.ledger.observePercentTx observation := by
  rw [answered.ledger, observed]
  rfl

theorem upsert_tracked (own : delivery.OfPlace place) (tracked : Tracked place reading) :
    Tracked place (reading.upsert place delivery) := by
  -- the answered row is observed, so only the times of what is unobserved depend on the case
  have answers (row : DbRow) (answered : Answered place reading (reading.upsert place delivery) row)
      (later : ∀ old ∈ heldAt place reading.table, ∀ time, eventTime old = .integer time →
        ∃ next, eventTime row = .integer next ∧ time ≤ next) :
      Tracked place (reading.upsert place delivery) := by
    constructor
    · exact ⟨some row, answered.held⟩
    · intro other member observation observed
      rw [answered.held, List.mem_singleton] at member
      rw [member] at observed
      rw [answered_known answered observed]
      exact Or.inl (covered_observe ..)
    · intro observation member
      rw [answered.unobserved] at member
      obtain ⟨old, isOld, time, isTime, le⟩ := tracked.behind observation member
      obtain ⟨next, isNext, grows⟩ := later old isOld time isTime
      exact ⟨row, answered.held ▸ List.mem_singleton_self row, next, isNext, le.trans grows⟩
  rcases upsert_cases own tracked with same | ⟨fresh, answered⟩ | ⟨stored, held, answered⟩
  · rw [same]
    exact tracked
  · apply answers _ answered
    intro old isOld
    rw [fresh] at isOld
    cases isOld
  · apply answers _ answered
    intro old isOld time isTime
    rw [held, List.mem_singleton] at isOld
    rw [isOld] at isTime
    unfold overwritten
    split_ifs with wins
    · have event : eventTime (ProgressUpdate.assign stored (delivery.offered reading.table)) =
          .integer delivery.event := (assigned_carries stored reading.table).event_time
      refine ⟨delivery.event, event, ?_⟩
      have newest := (Bool.and_eq_true _ _ ▸ wins).1
      rw [newestWins, isTime, (offered_carries reading.table).clientUpdatedAt] at newest
      exact of_decide_eq_true newest
    · exact ⟨time, isTime, le_rfl⟩

theorem observe_tracked {observation : Observation} (pending : observation ∈ reading.unobserved)
    (tracked : Tracked place reading) :
    Tracked place { reading with
      ledger := reading.ledger.observePercentTx observation
      unobserved := reading.unobserved.erase observation } := by
  constructor
  · exact tracked.single
  · intro row member other observed
    dsimp only at member ⊢
    rcases tracked.known row member other observed with covered | isPending
    · obtain ⟨stored, isStored, time, isTime, le⟩ := tracked.behind observation pending
      apply Or.inl
      apply covered_kept covered
      have rowTime := observation_time observed
      rw [tracked.same_row member isStored, isTime, Value.integer.injEq] at rowTime
      exact rowTime ▸ le
    · by_cases same : other = observation
      · rw [same]
        exact Or.inl (covered_observe ..)
      · exact Or.inr ((List.mem_erase_of_ne same).mpr isPending)
  · intro other member
    exact tracked.behind other (List.mem_of_mem_erase member)

theorem step_tracked {write : Write} {next : Reading}
    (own : ∀ delivery, write = .upsert delivery → delivery.OfPlace place)
    (tracked : Tracked place reading) (stepped : reading.step place write = some next) :
    Tracked place next := by
  cases write with
  | upsert delivery =>
      rw [← Option.some.inj stepped]
      exact upsert_tracked (own delivery rfl) tracked
  | attachPercent percent expected =>
      rw [← Option.some.inj stepped]
      exact attach_percent_tracked tracked percent expected
  | attachLocation location percent expected =>
      rw [← Option.some.inj stepped]
      exact attach_location_tracked tracked location percent expected
  | observe observation =>
      rw [Reading.step] at stepped
      split_ifs at stepped with pending
      rw [← Option.some.inj stepped]
      exact observe_tracked pending tracked

theorem losing_answers (own : delivery.OfPlace place) (tracked : Tracked place reading)
    (loses : losesGuard place reading.table delivery = true) :
    ∃ stored, heldAt place reading.table = [stored] ∧
      Answered place reading (reading.upsert place delivery) stored := by
  simp only [losesGuard, Bool.and_eq_true, Bool.not_eq_true'] at loses
  obtain ⟨⟨reaches, checked⟩, kept⟩ := loses
  obtain ⟨stored, isStored⟩ := tracked.single
  cases stored with
  | none =>
      rw [isStored] at kept
      cases kept
  | some stored =>
      rw [isStored, Option.toList_some, List.any_cons, List.any_nil, Bool.or_false,
        Bool.not_eq_true'] at kept
      have held := held_after_over (OfPlace.position own checked) isStored
      rw [kept, if_neg Bool.false_ne_true] at held
      exact ⟨stored, isStored, upsert_answers reaches checked held⟩

theorem run_tracked {table : DbTable} {slots : Slots} {writes : List Write}
    (fresh : heldAt place table = [])
    (positions : ∀ update, Write.upsert update ∈ writes → update.OfPlace place)
    (ran : Library.Runs.run (Reading.step place) ⟨table, ⟨none, slots⟩, []⟩ writes =
      some reading) : Tracked place reading := by
  have start : Tracked place ⟨table, ⟨none, slots⟩, []⟩ := by
    constructor
    · exact ⟨none, fresh⟩
    · intro row member
      rw [fresh] at member
      cases member
    · intro observation member
      cases member
  have meets : Library.Runs.Meets (Reading.step place)
      (fun _ write => ∀ update, write = .upsert update → update.OfPlace place)
      ⟨table, ⟨none, slots⟩, []⟩ writes := by
    apply Library.Runs.Meets.of_forall
    intro write member _ update isUpsert
    exact positions update (isUpsert ▸ member)
  apply Library.Runs.run_keeps (Reading.step place) _ writes start meets ran
  intro before write after tracked own stepped
  exact step_tracked own tracked stepped

/-- Observing the stored row again changes the sitting exactly when the row was not covered, and
what is not covered is still to be observed. -/
theorem losing_accrues_nothing_iff (own : delivery.OfPlace place) (tracked : Tracked place reading)
    (loses : losesGuard place reading.table delivery = true) :
    AccruesNothing reading.ledger (reading.upsert place delivery).ledger ↔
      Settled place reading := by
  obtain ⟨stored, held, answered⟩ := losing_answers own tracked loses
  have isHeld : stored ∈ heldAt place reading.table := held ▸ List.mem_singleton_self stored
  cases observed : observationOf (recordOf stored) with
  | none =>
      have same : (reading.upsert place delivery).ledger = reading.ledger := by
        rw [answered.ledger, observed]
        rfl
      rw [same]
      constructor
      · intro _ observation _ row isRow isObservation
        rw [tracked.same_row isRow isHeld, observed] at isObservation
        cases isObservation
      · intro _
        exact ⟨rfl, rfl⟩
  | some observation =>
      rw [answered_known answered observed]
      constructor
      · intro nothing other _ row isRow isOther
        rw [tracked.same_row isRow isHeld, observed, Option.some.injEq] at isOther
        rw [← isOther]
        exact covered_of_accrues_nothing nothing
      · intro settled
        apply covered_accrues_nothing
        rcases tracked.known stored isHeld observation observed with covered | pending
        · exact covered
        · exact settled observation pending stored isHeld observed

end Tracked

/-- A write that loses to the newest-wins or the multi-file guard accrues nothing, after any run
of the writers of a position, exactly when what attaches wrote to the row and have not observed is
covered by the sitting. -/
theorem rejected_accrues_nothing_iff (place : Place) (table : DbTable) (slots : Slots)
    (writes : List Write) (reading : Reading) (delivery : Delivery)
    (fresh : heldAt place table = [])
    (positions : ∀ update, Write.upsert update ∈ writes → update.OfPlace place)
    (ran : Library.Runs.run (Reading.step place) ⟨table, ⟨none, slots⟩, []⟩ writes = some reading)
    (own : delivery.OfPlace place) (loses : losesGuard place reading.table delivery = true) :
    AccruesNothing reading.ledger (reading.upsert place delivery).ledger ↔
      Settled place reading := by
  have tracked := run_tracked fresh positions ran
  exact losing_accrues_nothing_iff own tracked loses

section Examples

/-- Reader 1 at a CFI of an EPUB, read at `event`. -/
def anchored (event : Int) : ProgressUpdate :=
  { pageTurn 0 event with epubCfi := some "/6/4", progressPercent := none }

def atPlace : Place := ⟨1, "b", "epub"⟩

def unread : Reading := ⟨Table.ofRows [], ⟨none, ⟨[], List.nodup_nil⟩⟩, []⟩

/-- A page at 10, a CFI whose percent 30 is attached, and what becomes of the row's percent. -/
def attached : List Write :=
  [.upsert ⟨pageTurn 10 1000, 1000, 0⟩, .upsert ⟨anchored 1100, 1100, 0⟩, .attachPercent 30 1100]

def late : Delivery := ⟨pageTurn 15 1050, 1200, 0⟩

theorem attached_of_place (rest : List Write)
    (others : ∀ update, Write.upsert update ∉ rest) (update : Delivery)
    (member : Write.upsert update ∈ attached ++ rest) : update.OfPlace atPlace := by
  rcases List.mem_append.mp member with isAttached | isOther
  · simp only [attached, List.mem_cons, Write.upsert.injEq, List.not_mem_nil, or_false,
      reduceCtorEq] at isAttached
    rcases isAttached with same | same <;> rw [same] <;> exact ⟨rfl, rfl, rfl⟩
  · exact absurd isOther (others update)

/-- Once the attach has observed its percent, the late page accrues nothing. -/
theorem rejected_accrues_nothing_iff_observed :
    ∃ reading, Library.Runs.run (Reading.step atPlace) unread (attached ++ [.observe ⟨30, 1100⟩]) =
        some reading ∧
      AccruesNothing reading.ledger (reading.upsert atPlace late).ledger := by
  refine ⟨_, rfl, (rejected_accrues_nothing_iff atPlace (Table.ofRows []) ⟨[], List.nodup_nil⟩
    (attached ++ [.observe ⟨30, 1100⟩]) _ late rfl (attached_of_place _ ?_) rfl ⟨rfl, rfl, rfl⟩
    ?_).mpr ?_⟩
  · intro update
    simp
  · decide +kernel
  · intro observation member
    cases member

/-- Before, the late page is rejected and its delivery adds the 20 that the attach is owed. -/
theorem late_page_accrues :
    ∃ reading, Library.Runs.run (Reading.step atPlace) unread attached = some reading ∧
      losesGuard atPlace reading.table late = true ∧
      reading.ledger.slots.rows = [] ∧ sitting reading.ledger = some (10, some 1000) ∧
      (reading.upsert atPlace late).ledger.slots.rows = [⟨1, 20, 1100⟩] ∧
      sitting (reading.upsert atPlace late).ledger = some (30, some 1100) := by
  refine ⟨_, rfl, ?_, ?_, ?_, ?_, ?_⟩ <;> decide +kernel

end Examples

end Omnibus.Progress
