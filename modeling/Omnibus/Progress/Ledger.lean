import Mathlib.Algebra.BigOperators.Group.List.Basic
import Mathlib.Algebra.Order.Ring.Int
import Mathlib.Order.Bounds.Basic

/-!
# What a sitting adds to the ledger

`observe_percent_tx` for one reader, book and format: the sitting's mark, the clock it is in, and
the quarter-hour slots its gains accrue into.
-/

namespace Omnibus.Progress.Sitting

def idleGapSecs : Int := 900

def slotSecs : Int := 900

/-- A row of `reading_progress_marks`. -/
structure Mark where
  sittingMaxPercent : Int
  sittingObservedAt : Option Int
  updatedAt : Int
  deriving DecidableEq

/-- A row of `reading_progress_slots`. -/
structure Slot where
  slot : Int
  percentGained : Int
  updatedAt : Int
  deriving DecidableEq

structure Slots where
  rows : List Slot
  keyed : (rows.map (·.slot)).Nodup

structure Ledger where
  mark : Option Mark
  slots : Slots

structure Observation where
  percent : Int
  observedAt : Int
  deriving DecidableEq

def Observation.clamped (observation : Observation) : Int := max 0 (min observation.percent 100)

/-- The new sitting high-water and the ground gained. -/
def sittingGain (mark : Int) (lastAt : Option Int) (percent observedAt : Int) : Int × Int :=
  let continues := lastAt.any fun last => observedAt - last ≤ idleGapSecs
  (if continues then max mark percent else percent, max (percent - mark) 0)

/-- What an observation makes of the stored mark; the first one is a baseline. -/
def Ledger.measured (ledger : Ledger) (observation : Observation) : Int × Int :=
  match ledger.mark with
  | some row =>
      sittingGain row.sittingMaxPercent row.sittingObservedAt observation.clamped
        observation.observedAt
  | none => (observation.clamped, 0)

/-- The sitting clock never goes back. -/
def nextClock (stored : Option Mark) (observedAt : Int) : Int :=
  max ((stored.bind (·.sittingObservedAt)).getD observedAt) observedAt

def Slot.add (row : Slot) (gained observedAt : Int) : Slot :=
  { row with percentGained := row.percentGained + gained, updatedAt := observedAt }

def addToRows (slot gained observedAt : Int) : List Slot → List Slot
  | [] => [⟨slot, gained, observedAt⟩]
  | row :: rest =>
      if row.slot = slot then row.add gained observedAt :: rest
      else row :: addToRows slot gained observedAt rest

theorem add_to_rows_slots (slot gained observedAt : Int) (rows : List Slot) :
    (addToRows slot gained observedAt rows).map (·.slot) = rows.map (·.slot) ∨
      (slot ∉ rows.map (·.slot) ∧
        (addToRows slot gained observedAt rows).map (·.slot) = rows.map (·.slot) ++ [slot]) := by
  induction rows with
  | nil => exact Or.inr ⟨List.not_mem_nil, rfl⟩
  | cons row rest induction =>
      by_cases own : row.slot = slot
      · apply Or.inl
        simp [addToRows, own, Slot.add]
      · rcases induction with same | ⟨fresh, later⟩
        · apply Or.inl
          simp [addToRows, own, same]
        · apply Or.inr
          simp [addToRows, own, later, Ne.symm own]
          simpa using fresh

/-- The upsert of a gain into its quarter-hour. -/
def Slots.accrue (slots : Slots) (slot gained observedAt : Int) : Slots where
  rows := addToRows slot gained observedAt slots.rows
  keyed := by
    rcases add_to_rows_slots slot gained observedAt slots.rows with same | ⟨fresh, later⟩
    · rw [same]
      exact slots.keyed
    · rw [later]
      apply List.nodup_append.mpr
      refine ⟨slots.keyed, by simp, ?_⟩
      intro old isOld _ isNew equal
      subst equal
      exact fresh (List.mem_singleton.mp isNew ▸ isOld)

def Slots.total (slots : Slots) : Int := (slots.rows.map (·.percentGained)).sum

def Ledger.observePercentTx (ledger : Ledger) (observation : Observation) : Ledger :=
  let (sittingMax, gained) := ledger.measured observation
  { mark := some
      ⟨sittingMax, some (nextClock ledger.mark observation.observedAt), observation.observedAt⟩
    slots :=
      if gained ≤ 0 then ledger.slots
      else ledger.slots.accrue (observation.observedAt / slotSecs) gained observation.observedAt }

def Ledger.observeAll (ledger : Ledger) (observations : List Observation) : Ledger :=
  observations.foldl Ledger.observePercentTx ledger

def Ledger.gains (ledger : Ledger) : List Observation → List Int
  | [] => []
  | observation :: rest =>
      (ledger.measured observation).2 :: (ledger.observePercentTx observation).gains rest

/-- No observation comes more than the idle gap after the latest before it. -/
def InSitting (clock : Int) : List Observation → Prop
  | [] => True
  | observation :: rest =>
      observation.observedAt - clock ≤ idleGapSecs ∧
        InSitting (max clock observation.observedAt) rest

instance decidableInSitting : ∀ (clock : Int) (observations : List Observation),
    Decidable (InSitting clock observations)
  | _, [] => isTrue trivial
  | clock, observation :: rest =>
      have := decidableInSitting (max clock observation.observedAt) rest
      inferInstanceAs (Decidable (observation.observedAt - clock ≤ idleGapSecs ∧
        InSitting (max clock observation.observedAt) rest))

/-- The high-water mark of percents seen from `mark` on. -/
def highWater (mark : Int) (observations : List Observation) : Int :=
  (observations.map Observation.clamped).foldl max mark

theorem high_water_cons (mark : Int) (observation : Observation) (rest : List Observation) :
    highWater mark (observation :: rest) = highWater (max mark observation.clamped) rest :=
  rfl

theorem high_water_le_iff (mark bound : Int) (observations : List Observation) :
    highWater mark observations ≤ bound ↔
      mark ≤ bound ∧ ∀ observation ∈ observations, observation.clamped ≤ bound := by
  induction observations generalizing mark with
  | nil => simp [highWater]
  | cons observation rest induction =>
      rw [high_water_cons, induction, max_le_iff]
      simp [and_assoc]

theorem high_water_same (mark : Int) (observations others : List Observation)
    (same : ∀ observation, observation ∈ others ↔ observation ∈ observations) :
    highWater mark others = highWater mark observations := by
  apply eq_of_forall_ge_iff
  intro bound
  rw [high_water_le_iff, high_water_le_iff]
  simp only [same]

theorem high_water_greatest (mark highest : Int) (observations : List Observation)
    (greatest : IsGreatest {percent | ∃ observation ∈ observations, observation.clamped = percent}
      highest) :
    highWater mark observations = max mark highest := by
  apply eq_of_forall_ge_iff
  intro bound
  rw [high_water_le_iff, max_le_iff]
  apply and_congr_right
  intro _
  constructor
  · intro below
    obtain ⟨observation, member, rfl⟩ := greatest.1
    exact below observation member
  · intro below observation member
    exact le_trans (greatest.2 ⟨observation, member, rfl⟩) below

theorem total_accrue (slots : Slots) (slot gained observedAt : Int) :
    (slots.accrue slot gained observedAt).total = slots.total + gained := by
  change ((addToRows slot gained observedAt slots.rows).map (·.percentGained)).sum =
    (slots.rows.map (·.percentGained)).sum + gained
  generalize slots.rows = rows
  induction rows with
  | nil => simp [addToRows]
  | cons row rest induction =>
      rw [addToRows]
      split
      · simp only [Slot.add, List.map_cons, List.sum_cons]
        omega
      · simp only [List.map_cons, List.sum_cons, induction]
        omega

/-- One observation inside the sitting: the mark rises by what is gained, the clock only grows. -/
theorem observe_in_sitting (mark clock updatedAt : Int) (slots : Slots)
    (observation : Observation) (near : observation.observedAt - clock ≤ idleGapSecs) :
    ((Ledger.mk (some ⟨mark, some clock, updatedAt⟩) slots).measured observation).2 =
        max mark observation.clamped - mark ∧
      ∃ later : Slots, later.total = slots.total + (max mark observation.clamped - mark) ∧
        (Ledger.mk (some ⟨mark, some clock, updatedAt⟩) slots).observePercentTx observation =
          ⟨some ⟨max mark observation.clamped, some (max clock observation.observedAt),
            observation.observedAt⟩, later⟩ := by
  have continues : (decide (observation.observedAt - clock ≤ idleGapSecs)) = true :=
    decide_eq_true near
  have gained : max (observation.clamped - mark) 0 = max mark observation.clamped - mark := by
    omega
  have measured : (Ledger.mk (some ⟨mark, some clock, updatedAt⟩) slots).measured observation =
      (max mark observation.clamped, max mark observation.clamped - mark) := by
    simp only [Ledger.measured, sittingGain, Option.any_some, continues, if_true, gained]
  rw [Ledger.observePercentTx, measured]
  refine ⟨rfl, _, ?_, rfl⟩
  by_cases none' : max mark observation.clamped - mark ≤ 0
  · rw [if_pos none']
    dsimp only
    omega
  · rw [if_neg none']
    exact total_accrue slots _ _ _

/-- A run inside the sitting: the mark ends at the high-water mark, and what was gained is the way
there. -/
theorem observe_all_in_sitting (mark clock updatedAt : Int) (slots : Slots)
    (observations : List Observation) (inSitting : InSitting clock observations) :
    let start := Ledger.mk (some ⟨mark, some clock, updatedAt⟩) slots
    (start.gains observations).sum = highWater mark observations - mark ∧
      (start.observeAll observations).mark.map (·.sittingMaxPercent) =
        some (highWater mark observations) ∧
      (start.observeAll observations).slots.total =
        slots.total + (start.gains observations).sum := by
  induction observations generalizing mark clock updatedAt slots with
  | nil => simp [Ledger.gains, Ledger.observeAll, highWater]
  | cons observation rest induction =>
      obtain ⟨gained, later, total, observed⟩ :=
        observe_in_sitting mark clock updatedAt slots observation inSitting.1
      obtain ⟨sum, final, accrued⟩ := induction _ _ observation.observedAt later inSitting.2
      dsimp only at sum final accrued ⊢
      rw [Ledger.gains, Ledger.observeAll, List.foldl_cons, observed, gained, high_water_cons]
      rw [List.sum_cons]
      refine ⟨?_, final, ?_⟩
      · rw [sum]
        omega
      · rw [← Ledger.observeAll, accrued, total]
        omega

/-- The gains of a sitting are the distance from its mark to the furthest point seen, in whatever
order and however often the points were observed. -/
theorem sitting_gains_distance (mark clock updatedAt : Int) (slots : Slots)
    (observations : List Observation) (inSitting : InSitting clock observations) :
    let start := Ledger.mk (some ⟨mark, some clock, updatedAt⟩) slots
    (∀ highest,
      IsGreatest {percent | ∃ observation ∈ observations, observation.clamped = percent} highest →
      (start.gains observations).sum = max 0 (highest - mark) ∧
        (start.observeAll observations).mark.map (·.sittingMaxPercent) =
          some (max mark highest)) ∧
    (observations = [] → (start.gains observations).sum = 0 ∧
      (start.observeAll observations).mark.map (·.sittingMaxPercent) = some mark) ∧
    (∀ others, (∀ observation, observation ∈ others ↔ observation ∈ observations) →
      InSitting clock others →
      (start.gains others).sum = (start.gains observations).sum ∧
        (start.observeAll others).mark.map (·.sittingMaxPercent) =
          (start.observeAll observations).mark.map (·.sittingMaxPercent)) ∧
    (start.observeAll observations).slots.total =
      slots.total + (start.gains observations).sum := by
  intro start
  obtain ⟨sum, final, total⟩ :=
    observe_all_in_sitting mark clock updatedAt slots observations inSitting
  refine ⟨?_, ?_, ?_, total⟩
  · intro highest greatest
    rw [sum, final, high_water_greatest mark highest observations greatest]
    exact ⟨by omega, rfl⟩
  · intro equal
    subst equal
    exact ⟨rfl, rfl⟩
  · intro others same near
    obtain ⟨sum', final', -⟩ := observe_all_in_sitting mark clock updatedAt slots others near
    rw [sum, sum', final, final', high_water_same mark observations others same]
    exact ⟨rfl, rfl⟩

def sittingAt40 : Ledger := ⟨some ⟨40, some 1000, 1000⟩, ⟨[], List.nodup_nil⟩⟩

def replayed : List Observation := [⟨45, 1600⟩, ⟨43, 1200⟩, ⟨45, 1600⟩]

/-- A point seen late and one seen twice gain nothing of their own. -/
theorem sitting_gains_distance_replayed :
    (sittingAt40.gains replayed).sum = max 0 (45 - 40) ∧
      (sittingAt40.gains [⟨43, 1200⟩, ⟨45, 1600⟩]).sum = (sittingAt40.gains replayed).sum ∧
      (sittingAt40.observeAll replayed).slots.total = 0 + (sittingAt40.gains replayed).sum := by
  obtain ⟨reached, -, reordered, filled⟩ := sitting_gains_distance 40 1000 1000
    ⟨[], List.nodup_nil⟩ replayed (by decide)
  have highest : IsGreatest {percent | ∃ observation ∈ replayed, observation.clamped = percent}
      45 := by
    refine ⟨⟨_, List.mem_cons_self, rfl⟩, ?_⟩
    intro _ ⟨observation, member, equal⟩
    subst equal
    revert observation
    decide
  have same (observation : Observation) :
      observation ∈ [⟨43, 1200⟩, ⟨45, 1600⟩] ↔ observation ∈ replayed := by
    simp [replayed]
    tauto
  exact ⟨(reached 45 highest).1, (reordered _ same (by decide)).1, filled⟩

end Omnibus.Progress.Sitting
