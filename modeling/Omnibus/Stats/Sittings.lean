import Mathlib.Algebra.BigOperators.Group.List.Basic
import Mathlib.Algebra.Order.Ring.Int
import Mathlib.Data.List.Dedup
import Omnibus.Library.Islands
import Omnibus.Library.Strings

/-!
# Sittings

`stats/sessionize.rs`: every client flushes a running segment on a timer, so one sitting lands as
many rows, of two tables that may overlap. Two windows regroup them, each over one book's rows by
their start and end. Rows that tie are visited as the engine likes.
-/

namespace Omnibus.Stats

open Omnibus.Library Omnibus.Library.Strings

/-- Idle seconds that end a sitting. -/
def idleGapSecs : Int := 900

structure SessionRow where
  bookUuid : Text
  startedAt : Int
  endedAt : Int
  secs : Int
  /-- 0 reading, 1 listening. -/
  isAudio : Int
deriving DecidableEq

structure Sitting where
  bookUuid : Text
  startedAt : Int
  endedAt : Int
  secs : Int
  minAudio : Int
  maxAudio : Int
deriving DecidableEq

/-- One partition of the windows, in the order it is visited. -/
def inBook (bookUuid : Text) (rows : List SessionRow) : List SessionRow :=
  rows.filter fun row => row.bookUuid = bookUuid

def WindowOrder (left right : SessionRow) : Prop :=
  left.startedAt < right.startedAt ∨
    (left.startedAt = right.startedAt ∧ left.endedAt ≤ right.endedAt)

instance : DecidableRel WindowOrder := fun _ _ => inferInstanceAs (Decidable (_ ∨ _))

/-- The inner window: a break where a row starts long after every row before it has ended. -/
def breaks : Option Int → List SessionRow → List (SessionRow × Nat)
  | _, [] => []
  | highest, row :: rest =>
      let brk := if highest.any fun endedAt => idleGapSecs < row.startedAt - endedAt then 1 else 0
      (row, brk) :: breaks (some (highest.elim row.endedAt (max · row.endedAt))) rest

def runningSum : Nat → List (SessionRow × Nat) → List (SessionRow × Nat)
  | _, [] => []
  | sum, (row, brk) :: rest => (row, sum + brk) :: runningSum (sum + brk) rest

/-- A book's rows with their sittings. The outer window sorts what the inner one returned, and the
sort keeps what ties in its order. -/
def numbered (visited : List SessionRow) (bookUuid : Text) : List (SessionRow × Nat) :=
  runningSum 0 ((breaks none (inBook bookUuid visited)).insertionSort fun left right =>
    WindowOrder left.1 right.1)

def grouped (bookUuid : Text) (rows : List SessionRow) : Sitting where
  bookUuid := bookUuid
  startedAt := (rows.map (·.startedAt)).min?.getD 0
  endedAt := (rows.map (·.endedAt)).max?.getD 0
  secs := (rows.map (·.secs)).sum
  minAudio := (rows.map (·.isAudio)).min?.getD 0
  maxAudio := (rows.map (·.isAudio)).max?.getD 0

/-- `GROUP BY book_uuid, sitting`. -/
def stitched (visited : List SessionRow) : List Sitting :=
  (visited.map (·.bookUuid)).dedup.flatMap fun bookUuid =>
    ((numbered visited bookUuid).map Prod.snd).dedup.map fun sitting =>
      grouped bookUuid (((numbered visited bookUuid).filter fun row => row.2 = sitting).map Prod.fst)

/-- An order the engine may visit the rows in. -/
structure Visits (rows visited : List SessionRow) : Prop where
  perm : visited.Perm rows
  ordered : ∀ bookUuid, (inBook bookUuid visited).Pairwise WindowOrder

/-- What a sitting is: rows of a book that nothing idle parts. -/
def SameSitting (rows : List SessionRow) (left right : SessionRow) : Prop :=
  Islands.Together SessionRow.startedAt SessionRow.endedAt idleGapSecs
    (inBook left.bookUuid rows) left right

def Joined (rows : List SessionRow) (bookUuid : Text) (left right : SessionRow) : Prop :=
  Islands.Connected SessionRow.startedAt SessionRow.endedAt idleGapSecs
    (inBook bookUuid rows) left right

def Apart (left right : Sitting) : Prop :=
  left.endedAt + idleGapSecs < right.startedAt ∨ right.endedAt + idleGapSecs < left.startedAt

structure Split (row first second : SessionRow) : Prop where
  bookUuid : first.bookUuid = row.bookUuid ∧ second.bookUuid = row.bookUuid
  isAudio : first.isAudio = row.isAudio ∧ second.isAudio = row.isAudio
  startedAt : first.startedAt = row.startedAt
  endedAt : second.endedAt = row.endedAt
  instant : first.endedAt = second.startedAt
  within : row.startedAt ≤ first.endedAt ∧ first.endedAt ≤ row.endedAt
  secs : first.secs + second.secs = row.secs

section Windows

theorem gap_nonneg : 0 ≤ idleGapSecs := by
  decide

theorem runningSum_breaks (highest : Option Int) (sum : Nat) (rows : List SessionRow) :
    runningSum sum (breaks highest rows) =
      Islands.number SessionRow.startedAt SessionRow.endedAt idleGapSecs highest sum rows := by
  induction rows generalizing highest sum with
  | nil => rfl
  | cons row rest induction =>
      rw [breaks, runningSum, induction, Islands.number]
      by_cases idle : (highest.any fun endedAt => idleGapSecs < row.startedAt - endedAt) = true
      · simp only [if_pos idle]
      · simp only [if_neg idle, Nat.add_zero]

theorem breaks_rows (highest : Option Int) (rows : List SessionRow) :
    (breaks highest rows).map Prod.fst = rows := by
  induction rows generalizing highest with
  | nil => rfl
  | cons row rest induction => simp [breaks, induction]

theorem numbered_eq {visited : List SessionRow} {bookUuid : Text}
    (ordered : (inBook bookUuid visited).Pairwise WindowOrder) :
    numbered visited bookUuid = Islands.number SessionRow.startedAt SessionRow.endedAt idleGapSecs
      none 0 (inBook bookUuid visited) := by
  have sorted : (breaks none (inBook bookUuid visited)).Pairwise fun left right =>
      WindowOrder left.1 right.1 := by
    rw [← List.pairwise_map, breaks_rows]
    exact ordered
  rw [numbered, sorted.insertionSort_eq, runningSum_breaks]

theorem numbered_rows {visited : List SessionRow} {bookUuid : Text}
    (ordered : (inBook bookUuid visited).Pairwise WindowOrder) :
    (numbered visited bookUuid).map Prod.fst = inBook bookUuid visited := by
  rw [numbered_eq ordered, Islands.number_items]

theorem WindowOrder.startedAt_le {left right : SessionRow} (order : WindowOrder left right) :
    left.startedAt ≤ right.startedAt := by
  rcases order with before | ⟨same, _⟩
  · exact before.le
  · exact same.le

theorem mem_inBook {bookUuid : Text} {rows : List SessionRow} {row : SessionRow} :
    row ∈ inBook bookUuid rows ↔ row ∈ rows ∧ row.bookUuid = bookUuid := by
  simp [inBook]

end Windows

section Visited

variable {rows visited : List SessionRow}

theorem Visits.inBook_perm (visits : Visits rows visited) (bookUuid : Text) :
    (inBook bookUuid visited).Perm (inBook bookUuid rows) :=
  visits.perm.filter _

theorem Visits.mem_iff (visits : Visits rows visited) {bookUuid : Text} {row : SessionRow} :
    row ∈ inBook bookUuid visited ↔ row ∈ inBook bookUuid rows :=
  (visits.inBook_perm bookUuid).mem_iff

theorem together_perm {items others : List SessionRow} (perm : items.Perm others)
    (x y : SessionRow) :
    Islands.Together SessionRow.startedAt SessionRow.endedAt idleGapSecs items x y ↔
      Islands.Together SessionRow.startedAt SessionRow.endedAt idleGapSecs others x y := by
  unfold Islands.Together
  simp only [Islands.cut_perm perm]

variable (visits : Visits rows visited) (ends : ∀ row ∈ rows, row.startedAt ≤ row.endedAt)
  {bookUuid : Text}

include visits

theorem startedAt_sorted : (inBook bookUuid visited).Pairwise fun left right =>
    left.startedAt ≤ right.startedAt :=
  (visits.ordered bookUuid).imp WindowOrder.startedAt_le

theorem mem_of_numbered {pair : SessionRow × Nat} (member : pair ∈ numbered visited bookUuid) :
    pair.1 ∈ rows ∧ pair.1.bookUuid = bookUuid := by
  have inVisited : pair.1 ∈ inBook bookUuid visited := by
    rw [← numbered_rows (visits.ordered bookUuid)]
    exact List.mem_map_of_mem member
  exact mem_inBook.mp (visits.mem_iff.mp inVisited)

theorem numbered_of_mem {row : SessionRow} (member : row ∈ rows) :
    ∃ sitting, (row, sitting) ∈ numbered visited row.bookUuid := by
  have inVisited : row ∈ inBook row.bookUuid visited :=
    visits.mem_iff.mpr (mem_inBook.mpr ⟨member, rfl⟩)
  rw [← numbered_rows (visits.ordered row.bookUuid)] at inVisited
  obtain ⟨⟨other, sitting⟩, pairMem, rfl⟩ := List.mem_map.mp inVisited
  exact ⟨sitting, pairMem⟩

include ends

theorem ends_visited : ∀ row ∈ inBook bookUuid visited, row.startedAt ≤ row.endedAt :=
  fun row member => ends row (mem_inBook.mp (visits.mem_iff.mp member)).1

theorem same_number {x y : SessionRow × Nat} (xMem : x ∈ numbered visited bookUuid)
    (yMem : y ∈ numbered visited bookUuid) : x.2 = y.2 ↔ SameSitting rows x.1 y.1 := by
  have isBook := (mem_of_numbered visits xMem).2
  rw [numbered_eq (visits.ordered bookUuid)] at xMem yMem
  rw [Islands.same_island (startedAt_sorted visits) (ends_visited visits ends)
    gap_nonneg xMem yMem, together_perm (visits.inBook_perm bookUuid), SameSitting, isBook]

theorem joined_iff {x y : SessionRow} (xMem : x ∈ inBook bookUuid rows)
    (yMem : y ∈ inBook bookUuid rows) : Joined rows bookUuid x y ↔ SameSitting rows x y := by
  have isBook := (mem_inBook.mp xMem).2
  have connected := Islands.connected_iff (startedAt_sorted visits) (ends_visited visits ends)
    gap_nonneg (visits.mem_iff.mpr xMem) (visits.mem_iff.mpr yMem)
  rw [SameSitting, isBook, ← together_perm (visits.inBook_perm bookUuid), ← connected]
  constructor
  · intro ⟨chain, isChain, among, joins⟩
    exact ⟨chain, isChain, fun z member => visits.mem_iff.mpr (among z member), joins⟩
  · intro ⟨chain, isChain, among, joins⟩
    exact ⟨chain, isChain, fun z member => visits.mem_iff.mp (among z member), joins⟩

end Visited

section Groups

variable {rows others : List SessionRow} (column : SessionRow → Int)

theorem min_column {least : Int} : (rows.map column).min? = some least ↔
    (∃ row ∈ rows, column row = least) ∧ ∀ row ∈ rows, least ≤ column row := by
  simp [List.min?_eq_some_iff]

theorem max_column {greatest : Int} : (rows.map column).max? = some greatest ↔
    (∃ row ∈ rows, column row = greatest) ∧ ∀ row ∈ rows, column row ≤ greatest := by
  simp [List.max?_eq_some_iff]

/-- The best of each of two sets of rows is the same where each has one as good for every one of
the other. -/
theorem best_congr {best : List Int → Option Int} (asGood : Int → Int → Prop)
    (trans : ∀ {a b c}, asGood a b → asGood b c → asGood a c)
    (antisymm : ∀ {a b}, asGood a b → asGood b a → a = b)
    (empty : ∀ {values}, best values = none ↔ values = [])
    (some_iff : ∀ {rows : List SessionRow} {value}, best (rows.map column) = some value ↔
      (∃ row ∈ rows, column row = value) ∧ ∀ row ∈ rows, asGood value (column row))
    (left : ∀ row ∈ rows, ∃ other ∈ others, asGood (column other) (column row))
    (right : ∀ other ∈ others, ∃ row ∈ rows, asGood (column row) (column other)) :
    best (rows.map column) = best (others.map column) := by
  cases isBest : best (others.map column) with
  | none =>
      rw [empty, List.map_eq_nil_iff] at isBest ⊢
      rw [List.eq_nil_iff_forall_not_mem]
      intro row member
      obtain ⟨other, otherMem, _⟩ := left row member
      rw [isBest] at otherMem
      cases otherMem
  | some value =>
      obtain ⟨⟨other, otherMem, rfl⟩, otherBest⟩ := some_iff.mp isBest
      have asGoodAs (row : SessionRow) (member : row ∈ rows) :
          asGood (column other) (column row) := by
        obtain ⟨next, nextMem, good⟩ := left row member
        exact trans (otherBest next nextMem) good
      obtain ⟨row, member, good⟩ := right other otherMem
      exact some_iff.mpr ⟨⟨row, member, antisymm good (asGoodAs row member)⟩, asGoodAs⟩

theorem min_congr (left : ∀ row ∈ rows, ∃ other ∈ others, column other ≤ column row)
    (right : ∀ other ∈ others, ∃ row ∈ rows, column row ≤ column other) :
    (rows.map column).min? = (others.map column).min? :=
  best_congr column (· ≤ ·) le_trans le_antisymm List.min?_eq_none_iff (min_column column) left
    right

theorem max_congr (left : ∀ row ∈ rows, ∃ other ∈ others, column row ≤ column other)
    (right : ∀ other ∈ others, ∃ row ∈ rows, column other ≤ column row) :
    (rows.map column).max? = (others.map column).max? :=
  best_congr column (· ≥ ·) ge_trans ge_antisymm List.max?_eq_none_iff (max_column column) left
    right

/-- Each row has one in the others that starts no later, ends no earlier, and is of its table. -/
def Covered (rows others : List SessionRow) : Prop :=
  ∀ row ∈ rows, (∃ other ∈ others, other.startedAt ≤ row.startedAt) ∧
    (∃ other ∈ others, row.endedAt ≤ other.endedAt) ∧
    ∃ other ∈ others, other.isAudio = row.isAudio

variable {bookUuid : Text}

theorem grouped_congr (left : Covered rows others) (right : Covered others rows)
    (secs : (rows.map (·.secs)).sum = (others.map (·.secs)).sum) :
    grouped bookUuid rows = grouped bookUuid others := by
  have starts := min_congr SessionRow.startedAt (fun row member => (left row member).1)
    fun row member => (right row member).1
  have stops := max_congr SessionRow.endedAt (fun row member => (left row member).2.1)
    fun row member => (right row member).2.1
  have tables {rows others : List SessionRow} (covered : Covered rows others) (row : SessionRow)
      (member : row ∈ rows) : ∃ other ∈ others, other.isAudio = row.isAudio :=
    (covered row member).2.2
  have lowest := min_congr SessionRow.isAudio
    (fun row member => (tables left row member).imp fun _ same => ⟨same.1, same.2.le⟩)
    fun row member => (tables right row member).imp fun _ same => ⟨same.1, same.2.le⟩
  have highest := max_congr SessionRow.isAudio
    (fun row member => (tables left row member).imp fun _ same => ⟨same.1, same.2.ge⟩)
    fun row member => (tables right row member).imp fun _ same => ⟨same.1, same.2.ge⟩
  simp only [grouped, starts, stops, lowest, highest, secs]

theorem covered_of_subset (within : rows ⊆ others) : Covered rows others :=
  fun row member => ⟨⟨row, within member, le_rfl⟩, ⟨row, within member, le_rfl⟩,
    ⟨row, within member, rfl⟩⟩

theorem grouped_perm (perm : rows.Perm others) :
    grouped bookUuid rows = grouped bookUuid others :=
  grouped_congr (covered_of_subset perm.subset) (covered_of_subset perm.symm.subset)
    (perm.map _).sum_eq

theorem grouped_started (isSome : rows ≠ []) :
    (∃ row ∈ rows, row.startedAt = (grouped bookUuid rows).startedAt) ∧
      ∀ row ∈ rows, (grouped bookUuid rows).startedAt ≤ row.startedAt := by
  rw [← min_column]
  cases isLeast : (rows.map (·.startedAt)).min? with
  | none => simp [isSome] at isLeast
  | some least => simp [grouped, isLeast]

theorem grouped_ended (isSome : rows ≠ []) :
    (∃ row ∈ rows, row.endedAt = (grouped bookUuid rows).endedAt) ∧
      ∀ row ∈ rows, row.endedAt ≤ (grouped bookUuid rows).endedAt := by
  rw [← max_column]
  cases isGreatest : (rows.map (·.endedAt)).max? with
  | none => simp [isSome] at isGreatest
  | some greatest => simp [grouped, isGreatest]

end Groups

section Sums

variable {α κ : Type*} [DecidableEq κ]

theorem sum_of_one {keys : List κ} (nodup : keys.Nodup) {key : κ} (member : key ∈ keys)
    (value : Int) : (keys.map fun other => if key = other then value else 0).sum = value := by
  induction keys with
  | nil => cases member
  | cons first rest induction =>
      obtain ⟨fresh, nodupRest⟩ := List.nodup_cons.mp nodup
      rw [List.map_cons, List.sum_cons]
      by_cases isFirst : key = first
      · have others : (rest.map fun other => if key = other then value else 0) =
            rest.map fun _ => 0 := by
          apply List.map_congr_left
          intro other otherMem
          rw [if_neg]
          rintro rfl
          exact fresh (isFirst ▸ otherMem)
        rw [if_pos isFirst, others]
        simp
      · rw [if_neg isFirst, zero_add]
        exact induction nodupRest ((List.mem_cons.mp member).resolve_left isFirst)

theorem sum_of_groups {keys : List κ} (nodup : keys.Nodup) (key : α → κ) (value : α → Int)
    (items : List α) (keyed : ∀ item ∈ items, key item ∈ keys) :
    (keys.map fun one => ((items.filter fun item => key item = one).map value).sum).sum =
      (items.map value).sum := by
  induction items with
  | nil => simp
  | cons item rest induction =>
      have parted (one : κ) :
          (((item :: rest).filter fun item => key item = one).map value).sum =
            (if key item = one then value item else 0) +
              ((rest.filter fun item => key item = one).map value).sum := by
        by_cases isKey : key item = one
        · simp [isKey]
        · simp [isKey]
      simp only [parted, List.sum_map_add, List.map_cons, List.sum_cons]
      rw [sum_of_one nodup (keyed item List.mem_cons_self),
        induction fun other member => keyed other (List.mem_cons_of_mem _ member)]

theorem filter_groups {keys : List κ} (nodup : keys.Nodup) (group : κ → List α) (key : α → κ)
    (own : ∀ one, ∀ item ∈ group one, key item = one) {one : κ} (member : one ∈ keys) :
    (keys.flatMap group).filter (fun item => key item = one) = group one := by
  have mine : (group one).filter (fun item => key item = one) = group one :=
    List.filter_eq_self.mpr fun item itemMem => decide_eq_true (own one item itemMem)
  have foreign {other : κ} (differs : other ≠ one) :
      (group other).filter (fun item => key item = one) = [] := by
    rw [List.filter_eq_nil_iff]
    intro item itemMem
    simpa [own other item itemMem] using differs
  induction keys with
  | nil => cases member
  | cons first rest induction =>
      obtain ⟨fresh, nodupRest⟩ := List.nodup_cons.mp nodup
      rw [List.flatMap_cons, List.filter_append]
      by_cases isFirst : one = first
      · subst isFirst
        have others : (rest.flatMap group).filter (fun item => key item = one) = [] := by
          rw [List.filter_flatMap, List.flatMap_eq_nil_iff]
          intro other otherMem
          exact foreign fun same => fresh (same ▸ otherMem)
        rw [mine, others, List.append_nil]
      · rw [foreign (Ne.symm isFirst), List.nil_append]
        exact induction nodupRest ((List.mem_cons.mp member).resolve_left isFirst)

end Sums

section Sittings

open Classical in
noncomputable def island (rows : List SessionRow) (row : SessionRow) : List SessionRow :=
  (inBook row.bookUuid rows).filter fun other => SameSitting rows row other

noncomputable def sittingOf (rows : List SessionRow) (row : SessionRow) : Sitting :=
  grouped row.bookUuid (island rows row)

variable {rows visited : List SessionRow}

theorem mem_island {row other : SessionRow} : other ∈ island rows row ↔
    other ∈ rows ∧ other.bookUuid = row.bookUuid ∧ SameSitting rows row other := by
  simp [island, mem_inBook, and_assoc]

theorem island_self {row : SessionRow} (member : row ∈ rows) : row ∈ island rows row :=
  mem_island.mpr ⟨member, rfl, fun _ _ => Iff.rfl⟩

theorem island_cut {row other : SessionRow} {place : Int}
    (cut : Islands.Cut SessionRow.startedAt SessionRow.endedAt idleGapSecs
      (inBook row.bookUuid rows) place) (member : other ∈ island rows row) :
    (other.endedAt + idleGapSecs < place ∨ place ≤ other.startedAt) ∧
      (place ≤ row.startedAt ↔ place ≤ other.startedAt) := by
  obtain ⟨isRow, isBook, same⟩ := mem_island.mp member
  exact ⟨cut other (mem_inBook.mpr ⟨isRow, isBook⟩), same place cut⟩

theorem apart_of_parted {x y : SessionRow} (xMem : x ∈ rows) (yMem : y ∈ rows)
    (same : x.bookUuid = y.bookUuid) (parted : ¬SameSitting rows x y) :
    Apart (sittingOf rows x) (sittingOf rows y) := by
  obtain ⟨place, cut, differs⟩ : ∃ place,
      Islands.Cut SessionRow.startedAt SessionRow.endedAt idleGapSecs
        (inBook x.bookUuid rows) place ∧ ¬(place ≤ x.startedAt ↔ place ≤ y.startedAt) := by
    by_contra none
    refine parted fun place cut => ?_
    by_contra differs
    exact none ⟨place, cut, differs⟩
  have yBook : inBook x.bookUuid rows = inBook y.bookUuid rows := by rw [same]
  obtain ⟨xFirst, xFirstMem, xStart⟩ := (@grouped_started _ x.bookUuid
    (List.ne_nil_of_mem (island_self xMem))).1
  obtain ⟨yFirst, yFirstMem, yStart⟩ := (@grouped_started _ y.bookUuid
    (List.ne_nil_of_mem (island_self yMem))).1
  obtain ⟨xLast, xLastMem, xEnd⟩ := (@grouped_ended _ x.bookUuid
    (List.ne_nil_of_mem (island_self xMem))).1
  obtain ⟨yLast, yLastMem, yEnd⟩ := (@grouped_ended _ y.bookUuid
    (List.ne_nil_of_mem (island_self yMem))).1
  unfold Apart sittingOf
  rw [← xStart, ← yStart, ← xEnd, ← yEnd]
  have := island_cut cut xFirstMem
  have := island_cut cut xLastMem
  rw [yBook] at cut
  have := island_cut cut yFirstMem
  have := island_cut cut yLastMem
  omega

variable (visits : Visits rows visited) (ends : ∀ row ∈ rows, row.startedAt ≤ row.endedAt)

include visits ends

theorem numbered_island {pair : SessionRow × Nat}
    (member : pair ∈ numbered visited pair.1.bookUuid) :
    (((numbered visited pair.1.bookUuid).filter fun row => row.2 = pair.2).map Prod.fst).Perm
      (island rows pair.1) := by
  classical
  have selected : ((numbered visited pair.1.bookUuid).filter fun row => row.2 = pair.2) =
      (numbered visited pair.1.bookUuid).filter
        ((fun row => decide (SameSitting rows pair.1 row)) ∘ Prod.fst) := by
    apply List.filter_congr
    intro row rowMem
    rw [Function.comp_apply, decide_eq_decide, eq_comm]
    exact same_number visits ends member rowMem
  rw [selected, ← List.filter_map, numbered_rows (visits.ordered _)]
  exact (visits.inBook_perm _).filter _

theorem grouped_number {bookUuid : Text} {pair : SessionRow × Nat}
    (member : pair ∈ numbered visited bookUuid) :
    grouped bookUuid (((numbered visited bookUuid).filter fun row => row.2 = pair.2).map Prod.fst) =
      sittingOf rows pair.1 := by
  have isBook := (mem_of_numbered visits member).2
  subst isBook
  exact grouped_perm (numbered_island visits ends member)

/-- The stitched rows are the sittings of the rows, whatever order those are visited in. -/
theorem mem_stitched {sitting : Sitting} :
    sitting ∈ stitched visited ↔ ∃ row ∈ rows, sittingOf rows row = sitting := by
  simp only [stitched, List.mem_flatMap, List.mem_dedup, List.mem_map]
  constructor
  · intro ⟨bookUuid, _, number, ⟨pair, member, isNumber⟩, isSitting⟩
    subst isNumber
    exact ⟨pair.1, (mem_of_numbered visits member).1,
      (grouped_number visits ends member).symm.trans isSitting⟩
  · intro ⟨row, member, isSitting⟩
    obtain ⟨number, pairMem⟩ := numbered_of_mem visits member
    exact ⟨row.bookUuid, ⟨row, visits.perm.mem_iff.mpr member, rfl⟩, number,
      ⟨(row, number), pairMem, rfl⟩, (grouped_number visits ends pairMem).trans isSitting⟩

theorem stitched_apart :
    (stitched visited).Pairwise fun x y => x.bookUuid = y.bookUuid → Apart x y := by
  rw [stitched, List.pairwise_flatMap]
  constructor
  · intro bookUuid _
    rw [List.pairwise_map]
    refine List.Pairwise.imp_of_mem ?_ (List.nodup_dedup _)
    intro xNumber yNumber xMem yMem distinct _
    obtain ⟨x, xPair, rfl⟩ := List.mem_map.mp (List.mem_dedup.mp xMem)
    obtain ⟨y, yPair, rfl⟩ := List.mem_map.mp (List.mem_dedup.mp yMem)
    obtain ⟨xRow, xBook⟩ := mem_of_numbered visits xPair
    obtain ⟨yRow, yBook⟩ := mem_of_numbered visits yPair
    rw [grouped_number visits ends xPair, grouped_number visits ends yPair]
    refine apart_of_parted xRow yRow (xBook.trans yBook.symm) fun same => ?_
    exact distinct ((same_number visits ends xPair yPair).mpr same)
  · refine List.Pairwise.imp ?_ (List.nodup_dedup _)
    intro xBook yBook distinct x xMem y yMem same
    obtain ⟨_, _, rfl⟩ := List.mem_map.mp xMem
    obtain ⟨_, _, rfl⟩ := List.mem_map.mp yMem
    exact absurd same distinct

theorem started_le_ended {sitting : Sitting} (member : sitting ∈ stitched visited) :
    sitting.startedAt ≤ sitting.endedAt := by
  obtain ⟨row, rowMem, rfl⟩ := (mem_stitched visits ends).mp member
  have isSome := List.ne_nil_of_mem (island_self rowMem)
  exact ((grouped_started isSome).2 row (island_self rowMem)).trans ((ends row rowMem).trans
    ((grouped_ended isSome).2 row (island_self rowMem)))

theorem stitched_nodup : (stitched visited).Nodup := by
  refine List.Pairwise.imp_of_mem ?_ (stitched_apart visits ends)
  intro x y xMem _ parted same
  subst same
  have positive := gap_nonneg
  have := started_le_ended visits ends xMem
  have := parted rfl
  unfold Apart at this
  omega

omit ends in
theorem stitched_secs (bookUuid : Text) :
    (((stitched visited).filter fun sitting => sitting.bookUuid = bookUuid).map (·.secs)).sum =
      ((inBook bookUuid rows).map (·.secs)).sum := by
  have total := ((visits.inBook_perm bookUuid).map (·.secs)).sum_eq
  by_cases present : bookUuid ∈ visited.map (·.bookUuid)
  · have own (book : Text) : ∀ sitting ∈ ((numbered visited book).map Prod.snd).dedup.map
        fun number => grouped book
          (((numbered visited book).filter fun row => row.2 = number).map Prod.fst),
        sitting.bookUuid = book := by
      intro sitting member
      obtain ⟨_, _, rfl⟩ := List.mem_map.mp member
      rfl
    rw [stitched, filter_groups (List.nodup_dedup _) _ Sitting.bookUuid own
      (List.mem_dedup.mpr present), ← total, ← numbered_rows (visits.ordered bookUuid),
      List.map_map, List.map_map]
    have groups := sum_of_groups (List.nodup_dedup ((numbered visited bookUuid).map Prod.snd))
      Prod.snd (fun row => row.1.secs) (numbered visited bookUuid)
      fun row member => List.mem_dedup.mpr (List.mem_map_of_mem member)
    simpa [Function.comp_def, grouped] using groups
  · have none : inBook bookUuid visited = [] := by
      rw [inBook, List.filter_eq_nil_iff]
      intro row member isBook
      exact present (of_decide_eq_true isBook ▸ List.mem_map_of_mem member)
    have noSitting :
        (stitched visited).filter (fun sitting => sitting.bookUuid = bookUuid) = [] := by
      rw [List.filter_eq_nil_iff]
      intro sitting member isBook
      obtain ⟨book, bookMem, inGroup⟩ := List.mem_flatMap.mp member
      obtain ⟨_, _, rfl⟩ := List.mem_map.mp inGroup
      have same : book = bookUuid := of_decide_eq_true isBook
      exact present (same ▸ List.mem_dedup.mp bookMem)
    rw [noSitting, ← total, none]
    rfl

end Sittings

section Splitting

variable {row first second : SessionRow} (split : Split row first second)

include split

theorem grouped_split (bookUuid : Text) (rest : List SessionRow) :
    grouped bookUuid (row :: rest) = grouped bookUuid (first :: second :: rest) := by
  obtain ⟨_, ⟨firstAudio, secondAudio⟩, startedAt, endedAt, instant, ⟨after, before⟩, secs⟩ := split
  apply grouped_congr
  · intro other member
    rcases List.mem_cons.mp member with rfl | inRest
    · exact ⟨⟨first, by simp, startedAt.le⟩, ⟨second, by simp, endedAt.ge⟩,
        ⟨first, by simp, firstAudio⟩⟩
    · have inParts : other ∈ first :: second :: rest := by simp [inRest]
      exact ⟨⟨other, inParts, le_rfl⟩, ⟨other, inParts, le_rfl⟩, ⟨other, inParts, rfl⟩⟩
  · intro other member
    rcases List.mem_cons.mp member with rfl | inRest
    · exact ⟨⟨row, by simp, startedAt.ge⟩, ⟨row, by simp, before⟩, ⟨row, by simp, firstAudio.symm⟩⟩
    · rcases List.mem_cons.mp inRest with rfl | inRest
      · exact ⟨⟨row, by simp, by omega⟩, ⟨row, by simp, endedAt.le⟩,
          ⟨row, by simp, secondAudio.symm⟩⟩
      · have inRows : other ∈ row :: rest := by simp [inRest]
        exact ⟨⟨other, inRows, le_rfl⟩, ⟨other, inRows, le_rfl⟩, ⟨other, inRows, rfl⟩⟩
  · simp only [List.map_cons, List.sum_cons]
    omega

theorem cut_split (bookUuid : Text) (rest : List SessionRow) (place : Int) :
    Islands.Cut SessionRow.startedAt SessionRow.endedAt idleGapSecs
        (inBook bookUuid (row :: rest)) place ↔
      Islands.Cut SessionRow.startedAt SessionRow.endedAt idleGapSecs
        (inBook bookUuid (first :: second :: rest)) place := by
  obtain ⟨⟨firstBook, secondBook⟩, _, startedAt, endedAt, instant, within, _⟩ := split
  have positive := gap_nonneg
  unfold Islands.Cut
  simp only [mem_inBook, List.mem_cons]
  constructor
  · rintro cut other ⟨rfl | rfl | inRest, isBook⟩
    · have := cut row ⟨.inl rfl, firstBook.symm.trans isBook⟩
      omega
    · have := cut row ⟨.inl rfl, secondBook.symm.trans isBook⟩
      omega
    · exact cut other ⟨.inr inRest, isBook⟩
  · rintro cut other ⟨rfl | inRest, isBook⟩
    · have := cut first ⟨.inl rfl, firstBook.trans isBook⟩
      have := cut second ⟨.inr (.inl rfl), secondBook.trans isBook⟩
      omega
    · exact cut other ⟨.inr (.inr inRest), isBook⟩

theorem same_sitting_split (rest : List SessionRow) (x y : SessionRow) :
    SameSitting (row :: rest) x y ↔ SameSitting (first :: second :: rest) x y := by
  unfold SameSitting Islands.Together
  simp only [cut_split split]

theorem same_sitting_parts (rest : List SessionRow) {x : SessionRow}
    (isBook : row.bookUuid = x.bookUuid) :
    (SameSitting (row :: rest) x first ↔ SameSitting (row :: rest) x row) ∧
      (SameSitting (row :: rest) x second ↔ SameSitting (row :: rest) x row) := by
  obtain ⟨_, _, startedAt, _, instant, within, _⟩ := split
  have positive := gap_nonneg
  unfold SameSitting Islands.Together
  constructor
  · rw [startedAt]
  · refine forall_congr' fun place => forall_congr' fun cut => ?_
    have := cut row (mem_inBook.mpr ⟨List.mem_cons_self, isBook⟩)
    omega

theorem sittingOf_split (rest : List SessionRow) (x : SessionRow) :
    sittingOf (row :: rest) x = sittingOf (first :: second :: rest) x := by
  classical
  have islands (rows : List SessionRow) : island rows x =
      rows.filter fun other => other.bookUuid = x.bookUuid ∧ SameSitting rows x other := by
    simp [island, inBook, List.filter_filter, Bool.and_comm]
  have firstBook := split.bookUuid.1
  have secondBook := split.bookUuid.2
  unfold sittingOf
  rw [islands, islands]
  simp only [← same_sitting_split split]
  by_cases isBook : row.bookUuid = x.bookUuid
  · obtain ⟨firstSame, secondSame⟩ := same_sitting_parts split rest isBook
    by_cases isSame : SameSitting (row :: rest) x row
    · simp only [List.filter_cons, firstBook, secondBook, isBook, firstSame, secondSame, isSame]
      exact grouped_split split _ _
    · simp [firstSame, secondSame, isSame]
  · simp [firstBook, secondBook, isBook]

omit split in
theorem sittingOf_of_same {rows : List SessionRow} {x y : SessionRow}
    (isBook : x.bookUuid = y.bookUuid) (same : SameSitting rows x y) :
    sittingOf rows x = sittingOf rows y := by
  have members : island rows x = island rows y := by
    unfold island
    rw [isBook]
    apply List.filter_congr
    intro other _
    rw [SameSitting, isBook] at same
    rw [decide_eq_decide, SameSitting, SameSitting, isBook]
    exact ⟨same.symm.trans, same.trans⟩
  rw [sittingOf, sittingOf, isBook, members]

theorem sittingOf_parts (rest : List SessionRow) :
    sittingOf (row :: rest) first = sittingOf (row :: rest) row ∧
      sittingOf (row :: rest) second = sittingOf (row :: rest) row := by
  have self : SameSitting (row :: rest) row row := fun _ _ => Iff.rfl
  obtain ⟨firstSame, secondSame⟩ := same_sitting_parts split rest rfl
  exact ⟨(sittingOf_of_same split.bookUuid.1.symm (firstSame.mpr self)).symm,
    (sittingOf_of_same split.bookUuid.2.symm (secondSame.mpr self)).symm⟩

theorem stitched_split {rest visited parted : List SessionRow}
    (ends : ∀ other ∈ row :: rest, other.startedAt ≤ other.endedAt)
    (visits : Visits (row :: rest) visited) (partsVisit : Visits (first :: second :: rest) parted) :
    (stitched parted).Perm (stitched visited) := by
  have partEnds : ∀ other ∈ first :: second :: rest, other.startedAt ≤ other.endedAt := by
    obtain ⟨_, _, startedAt, endedAt, instant, ⟨after, before⟩, _⟩ := split
    intro other member
    rcases List.mem_cons.mp member with rfl | inRest
    · omega
    · rcases List.mem_cons.mp inRest with rfl | inRest
      · omega
      · exact ends other (List.mem_cons_of_mem _ inRest)
  obtain ⟨ofFirst, ofSecond⟩ := sittingOf_parts split rest
  apply (List.perm_ext_iff_of_nodup (stitched_nodup partsVisit partEnds)
    (stitched_nodup visits ends)).mpr
  intro sitting
  rw [mem_stitched partsVisit partEnds, mem_stitched visits ends]
  simp only [← sittingOf_split split, List.mem_cons, or_and_right, exists_or, exists_eq_left,
    ofFirst, ofSecond, or_self_left]

end Splitting

/-- Two rows of a book are of one sitting when a chain joins them. So a book's sittings lie more
than the gap apart, their seconds are its rows' seconds, and a row recorded as two changes none. -/
theorem sittings_are_islands {rows visited : List SessionRow}
    (ends : ∀ row ∈ rows, row.startedAt ≤ row.endedAt) (visits : Visits rows visited) :
    (∀ bookUuid,
      ((numbered visited bookUuid).map Prod.fst).Perm (inBook bookUuid rows) ∧
      (∀ x ∈ numbered visited bookUuid, ∀ y ∈ numbered visited bookUuid,
        x.2 = y.2 ↔ Joined rows bookUuid x.1 y.1) ∧
      (((stitched visited).filter fun sitting => sitting.bookUuid = bookUuid).map (·.secs)).sum =
        ((inBook bookUuid rows).map (·.secs)).sum) ∧
    ((stitched visited).Pairwise fun x y => x.bookUuid = y.bookUuid → Apart x y) ∧
    ∀ row first second rest parted, rows.Perm (row :: rest) → Split row first second →
      Visits (first :: second :: rest) parted → (stitched parted).Perm (stitched visited) := by
  refine ⟨fun bookUuid => ⟨?_, ?_, stitched_secs visits bookUuid⟩, stitched_apart visits ends, ?_⟩
  · rw [numbered_rows (visits.ordered bookUuid)]
    exact visits.inBook_perm bookUuid
  · intro x xMem y yMem
    have xRow := mem_inBook.mpr (mem_of_numbered visits xMem)
    have yRow := mem_inBook.mpr (mem_of_numbered visits yMem)
    rw [same_number visits ends xMem yMem, joined_iff visits ends xRow yRow]
  · intro row first second rest parted perm split partsVisit
    have others : Visits (row :: rest) visited := ⟨visits.perm.trans perm, visits.ordered⟩
    exact stitched_split split (fun other member => ends other (perm.mem_iff.mpr member)) others
      partsVisit

/-- A book heard while it is read: the last row starts long after the row before it has ended, but
not after the longest has. -/
def overlapping : List SessionRow :=
  [⟨['b'], 0, 2000, 2000, 0⟩, ⟨['b'], 100, 200, 100, 1⟩, ⟨['b'], 2500, 2600, 100, 0⟩]

theorem sittings_are_islands_overlapping :
    Joined overlapping ['b'] ⟨['b'], 100, 200, 100, 1⟩ ⟨['b'], 2500, 2600, 100, 0⟩ := by
  have ordered : overlapping.Pairwise WindowOrder := by decide
  have visits : Visits overlapping overlapping := ⟨List.Perm.refl _, fun _ => ordered.filter _⟩
  exact (((sittings_are_islands (by decide) visits).1 ['b']).2.1
    (⟨['b'], 100, 200, 100, 1⟩, 0) (by decide) (⟨['b'], 2500, 2600, 100, 0⟩, 0) (by decide)).mp rfl

end Omnibus.Stats
