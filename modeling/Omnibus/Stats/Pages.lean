import Mathlib.Algebra.Order.Ring.Int
import Mathlib.Data.Int.Order.Basic
import Mathlib.Order.Defs.LinearOrder
import Mathlib.Order.Lattice
import Omnibus.Library.Strings

/-!
# The pages ledger

`stats/pages.rs`: what a reader gained, by slots of fifteen minutes and, before there were
slots, by frozen days. A window or a day is cut out of it on the reader's own calendar. No
index serves that comparison, so a bound that one serves is pushed down into each arm first.
-/

namespace Omnibus.Stats

open Omnibus.Library.Strings

def slotSecs : Int := 900

def daySecs : Int := 86400

/-- SQLite's days: `date(secs, 'unixepoch')` is the floor of the seconds by a day, days compare
as they follow each other, and `strftime('%s', day)` is the midnight a day opens with. -/
structure Calendar (Day : Type*) [LinearOrder Day] where
  date : Int → Day
  midnight : Day → Option Int
  follows : ∀ earlier later, date earlier ≤ date later ↔ earlier / daySecs ≤ later / daySecs
  opens : ∀ secs, midnight (date secs) = some (secs / daySecs * daySecs)

def dayNumbers : Calendar Int where
  date secs := secs / daySecs
  midnight day := some (day * daySecs)
  follows _ _ := Iff.rfl
  opens _ := rfl

/-- The offset held to the range of the calendars in use, from twelve hours west to fourteen
east. -/
def bounded (offsetMinutes : Int) : Int := max (-720) (min 840 offsetMinutes)

def shift (offsetMinutes : Int) : Int := bounded offsetMinutes * 60

structure SlotRow where
  userId : Int
  bookUuid : Text
  slot : Int
  percentGained : Int

structure DailyRow (Day : Type*) where
  userId : Int
  bookUuid : Text
  day : Day
  percentGained : Int

structure Ledger (Day : Type*) where
  slots : List SlotRow
  daily : List (DailyRow Day)
  /-- `stats_excluded_books`, by reader and book. -/
  excluded : List (Int × Text)
  /-- What `book_pages_source` answers: each book, and its pages where they were measured. -/
  pages : List (Text × Option Int)

structure LedgerDay (Day : Type*) where
  day : Day
  uuid : Text
  percentGained : Int

structure PagesDay (Day : Type*) extends LedgerDay Day where
  pages : Option Int

structure LedgerPrune (Day : Type*) where
  slots : SlotRow → Bool
  daily : DailyRow Day → Bool

section Queries

variable {Day : Type*} [LinearOrder Day] (calendar : Calendar Day) (ledger : Ledger Day)
  (userId offsetMinutes : Int)

def localDay (secs : Int) : Day := calendar.date (secs + shift offsetMinutes)

/-- The prune to a window that opens at a second. SQLite's `/` truncates toward zero. -/
def windowPrune (start : Int) : LedgerPrune Day where
  slots row := decide ((start - daySecs).tdiv slotSecs ≤ row.slot)
  daily row := decide (calendar.date (start - daySecs) ≤ row.day)

/-- The prune to one day. What is no day has no midnight, and nothing compares with that. -/
def dayPrune (day : Day) : LedgerPrune Day where
  slots row := (calendar.midnight day).any fun midnight =>
    decide ((midnight - daySecs).tdiv slotSecs ≤ row.slot ∧
      row.slot ≤ (midnight + 2 * daySecs).tdiv slotSecs)
  daily row := decide (row.day = day)

def noPrune : LedgerPrune Day where
  slots _ := true
  daily _ := true

def kept (reader : Int) (bookUuid : Text) : Bool :=
  !ledger.excluded.any fun excluded => excluded.1 = reader ∧ excluded.2 = bookUuid

def ledgerDays (prune : LedgerPrune Day) : List (LedgerDay Day) :=
  ((ledger.slots.filter fun row => row.userId = userId && prune.slots row &&
      kept ledger row.userId row.bookUuid).map fun row =>
    ⟨localDay calendar offsetMinutes (row.slot * slotSecs), row.bookUuid, row.percentGained⟩) ++
  (ledger.daily.filter fun row => row.userId = userId && prune.daily row &&
      kept ledger row.userId row.bookUuid).map fun row =>
    ⟨row.day, row.bookUuid, row.percentGained⟩

def withPages (gains : List (LedgerDay Day)) : List (PagesDay Day) :=
  gains.flatMap fun gain => (ledger.pages.filter fun book => book.1 = gain.uuid).map fun book =>
    { gain with pages := book.2 }

def ledgerInWindow (prune : LedgerPrune Day) (start : Int) : List (PagesDay Day) :=
  (withPages ledger (ledgerDays calendar ledger userId offsetMinutes prune)).filter fun row =>
    localDay calendar offsetMinutes start ≤ row.day

def ledgerOnDay (prune : LedgerPrune Day) (day : Day) : List (PagesDay Day) :=
  (withPages ledger (ledgerDays calendar ledger userId offsetMinutes prune)).filter fun row =>
    row.day = day

/-- The sum the tiles round: of percents by pages, none where no book was measured. -/
def pagesSum (rows : List (PagesDay Day)) : Option Int :=
  let gains := rows.filterMap fun row => row.pages.map fun pages => row.percentGained * pages
  if gains = [] then none else some gains.sum

def pagesRead (prune : LedgerPrune Day) (start : Int) : Option Int :=
  pagesSum (ledgerInWindow calendar ledger userId offsetMinutes prune start)

/-- The last day counted is the one the second before the end falls in. -/
def pagesReadBounded (prune : LedgerPrune Day) (start stop : Int) : Int :=
  (pagesSum ((ledgerInWindow calendar ledger userId offsetMinutes prune start).filter fun row =>
    row.day ≤ localDay calendar offsetMinutes (stop - 1))).getD 0

def pagesReadOnDay (prune : LedgerPrune Day) (day : Day) : Int :=
  (pagesSum (ledgerOnDay calendar ledger userId offsetMinutes prune day)).getD 0

end Queries

section Pruned

variable {Day : Type*} [LinearOrder Day] {calendar : Calendar Day} {ledger : Ledger Day}
  {userId offsetMinutes : Int}

theorem shift_within (offsetMinutes : Int) :
    -43200 ≤ shift offsetMinutes ∧ shift offsetMinutes ≤ 50400 := by
  unfold shift bounded
  omega

theorem tdiv_slot (bound : Int) :
    0 ≤ bound ∧ bound.tdiv slotSecs = bound / slotSecs ∨
      bound ≤ 0 ∧ bound.tdiv slotSecs = -((-bound) / slotSecs) := by
  rcases Int.le_total 0 bound with positive | negative
  · exact .inl ⟨positive, Int.tdiv_eq_ediv_of_nonneg positive⟩
  · refine .inr ⟨negative, ?_⟩
    rw [← Int.tdiv_eq_ediv_of_nonneg (by omega), Int.neg_tdiv, Int.neg_neg]

theorem tdiv_le_slot {bound slot : Int} (reached : bound ≤ slot * slotSecs) :
    bound.tdiv slotSecs ≤ slot := by
  have quotient := tdiv_slot bound
  unfold slotSecs at *
  omega

theorem slot_le_tdiv {bound slot : Int} (within : slot * slotSecs ≤ bound) :
    slot ≤ bound.tdiv slotSecs := by
  have quotient := tdiv_slot bound
  unfold slotSecs at *
  omega

/-- The slots of a day on a reader's calendar lie less than a day outside the UTC day. -/
theorem window_slot {start slot : Int}
    (kept : localDay calendar offsetMinutes start ≤
      localDay calendar offsetMinutes (slot * slotSecs)) :
    (start - daySecs).tdiv slotSecs ≤ slot := by
  apply tdiv_le_slot
  unfold localDay at kept
  rw [calendar.follows] at kept
  unfold daySecs at *
  omega

theorem window_day {start : Int} {day : Day}
    (kept : localDay calendar offsetMinutes start ≤ day) :
    calendar.date (start - daySecs) ≤ day := by
  refine le_trans ((calendar.follows _ _).mpr ?_) kept
  have within := shift_within offsetMinutes
  unfold daySecs
  omega

theorem day_slot {slot : Int} :
    (dayPrune calendar (localDay calendar offsetMinutes (slot * slotSecs))).slots
      ⟨0, [], slot, 0⟩ = true := by
  have within := shift_within offsetMinutes
  unfold dayPrune localDay
  simp only [calendar.opens, Option.any_some, decide_eq_true_eq]
  constructor
  · apply tdiv_le_slot
    unfold daySecs
    omega
  · apply slot_le_tdiv
    unfold daySecs
    omega

omit [LinearOrder Day] in
theorem with_pages_filter (keeps : Day → Bool) (gains : List (LedgerDay Day)) :
    (withPages ledger gains).filter (fun row => keeps row.day) =
      withPages ledger (gains.filter fun gain => keeps gain.day) := by
  induction gains with
  | nil => rfl
  | cons gain rest induction =>
      have unfolded (gains : List (LedgerDay Day)) : withPages ledger (gain :: gains) =
          ((ledger.pages.filter fun book => book.1 = gain.uuid).map fun book =>
            { gain with pages := book.2 }) ++ withPages ledger gains := rfl
      rw [unfolded, List.filter_append, induction, List.filter_map, List.filter_cons]
      by_cases isKept : keeps gain.day = true
      · rw [if_pos isKept, unfolded]
        simp [Function.comp_def, isKept]
      · rw [if_neg isKept]
        simp [Function.comp_def, isKept]

/-- A prune that lets through whatever the calendar keeps changes nothing that it keeps. -/
theorem ledger_days_pruned (prune : LedgerPrune Day) (keeps : Day → Bool)
    (slots : ∀ row : SlotRow,
      keeps (localDay calendar offsetMinutes (row.slot * slotSecs)) = true →
        prune.slots row = true)
    (daily : ∀ row : DailyRow Day, keeps row.day = true → prune.daily row = true) :
    (ledgerDays calendar ledger userId offsetMinutes prune).filter (fun gain => keeps gain.day) =
      (ledgerDays calendar ledger userId offsetMinutes noPrune).filter
        fun gain => keeps gain.day := by
  unfold ledgerDays
  simp only [List.filter_append, List.filter_map, List.filter_filter]
  congr 2
  · apply List.filter_congr
    intro row _
    cases isKept : keeps (localDay calendar offsetMinutes (row.slot * slotSecs)) with
    | false => simp [isKept]
    | true => simp [slots row isKept, noPrune]
  · apply List.filter_congr
    intro row _
    cases isKept : keeps row.day with
    | false => simp [isKept]
    | true => simp [daily row isKept, noPrune]

theorem window_pruned (start : Int) :
    ledgerInWindow calendar ledger userId offsetMinutes (windowPrune calendar start) start =
      ledgerInWindow calendar ledger userId offsetMinutes noPrune start := by
  unfold ledgerInWindow
  have filtered := @with_pages_filter _ ledger fun day =>
    decide (localDay calendar offsetMinutes start ≤ day)
  rw [filtered, filtered]
  apply congrArg (withPages ledger)
  apply ledger_days_pruned _ fun day => decide (localDay calendar offsetMinutes start ≤ day)
  · intro row isKept
    exact decide_eq_true (window_slot (of_decide_eq_true isKept))
  · intro row isKept
    exact decide_eq_true (window_day (of_decide_eq_true isKept))

theorem day_pruned (day : Day) :
    ledgerOnDay calendar ledger userId offsetMinutes (dayPrune calendar day) day =
      ledgerOnDay calendar ledger userId offsetMinutes noPrune day := by
  unfold ledgerOnDay
  have filtered := @with_pages_filter _ ledger fun other => decide (other = day)
  rw [filtered, filtered]
  apply congrArg (withPages ledger)
  apply ledger_days_pruned _ fun other => decide (other = day)
  · intro row isKept
    rw [← of_decide_eq_true isKept]
    exact day_slot
  · exact fun row isKept => isKept

/-- The prune of a window and the prune of a day keep every row the reader's calendar keeps, so
each sum is the sum over the whole ledger. -/
theorem pruning_keeps_sum (calendar : Calendar Day) (ledger : Ledger Day)
    (userId offsetMinutes : Int) :
    (∀ start,
      ledgerInWindow calendar ledger userId offsetMinutes (windowPrune calendar start) start =
        ledgerInWindow calendar ledger userId offsetMinutes noPrune start ∧
      pagesRead calendar ledger userId offsetMinutes (windowPrune calendar start) start =
        pagesRead calendar ledger userId offsetMinutes noPrune start ∧
      ∀ stop, pagesReadBounded calendar ledger userId offsetMinutes
          (windowPrune calendar start) start stop =
        pagesReadBounded calendar ledger userId offsetMinutes noPrune start stop) ∧
    ∀ day, ledgerOnDay calendar ledger userId offsetMinutes (dayPrune calendar day) day =
        ledgerOnDay calendar ledger userId offsetMinutes noPrune day ∧
      pagesReadOnDay calendar ledger userId offsetMinutes (dayPrune calendar day) day =
        pagesReadOnDay calendar ledger userId offsetMinutes noPrune day := by
  constructor
  · intro start
    unfold pagesRead pagesReadBounded
    rw [window_pruned]
    exact ⟨rfl, rfl, fun _ => rfl⟩
  · intro day
    unfold pagesReadOnDay
    rw [day_pruned]
    exact ⟨rfl, rfl⟩

/-- East of UTC the day a window opens in has slots before the window does, and before 1970. -/
theorem pruning_keeps_sum_day_numbers :
    pagesRead dayNumbers ⟨[⟨1, ['a'], -1, 10⟩], [], [], [(['a'], some 300)]⟩ 1 360
        (windowPrune dayNumbers 0) 0 = some 3000 ∧
      pagesRead dayNumbers ⟨[⟨1, ['a'], -1, 10⟩], [], [], [(['a'], some 300)]⟩ 1 360 noPrune 0 =
        some 3000 := by
  have pruned : pagesRead dayNumbers ⟨[⟨1, ['a'], -1, 10⟩], [], [], [(['a'], some 300)]⟩ 1 360
      (windowPrune dayNumbers 0) 0 = some 3000 := by
    decide
  exact ⟨pruned, ((pruning_keeps_sum dayNumbers _ 1 360).1 0).2.1 ▸ pruned⟩

end Pruned

end Omnibus.Stats
