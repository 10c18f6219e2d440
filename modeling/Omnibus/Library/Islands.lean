import Mathlib.Data.List.Sort
import Mathlib.Data.List.TakeWhile
import Mathlib.Data.Int.Order.Basic

/-!
# Islands of intervals

Intervals visited by their lower ends. A new island begins where the next one starts more than
a gap above everything before it. What tells islands apart does not depend on the visit: a cut,
a place that every interval ends a gap below or starts at or above.
-/

namespace Omnibus.Library.Islands

variable {α : Type*} (lo hi : α → Int) (gap : Int)

/-- Nothing reaches from below the place to within the gap of it. -/
def Cut (items : List α) (place : Int) : Prop :=
  ∀ x ∈ items, hi x + gap < place ∨ place ≤ lo x

/-- No cut has one below and the other above. -/
def Together (items : List α) (x y : α) : Prop :=
  ∀ place, Cut lo hi gap items place → (place ≤ lo x ↔ place ≤ lo y)

/-- By lower ends, each no more than the gap above the highest end so far. -/
structure Chain (chain : List α) : Prop where
  ordered : chain.Pairwise fun x y => lo x ≤ lo y
  reached : ∀ earlier x later, chain = earlier ++ x :: later → earlier ≠ [] →
    ∃ y ∈ earlier, lo x - hi y ≤ gap

def Connected (items : List α) (x y : α) : Prop :=
  ∃ chain, Chain lo hi gap chain ∧ (∀ z ∈ chain, z ∈ items) ∧ x ∈ chain ∧ y ∈ chain

/-- Each interval with the number of its island; `top` is the highest end before. -/
def number : Option Int → Nat → List α → List (α × Nat)
  | _, _, [] => []
  | top, count, x :: rest =>
      let island := if top.any fun highest => gap < lo x - highest then count + 1 else count
      (x, island) :: number (some (top.elim (hi x) (max · (hi x)))) island rest

variable {lo hi gap}

theorem number_items (top : Option Int) (count : Nat) (items : List α) :
    (number lo hi gap top count items).map Prod.fst = items := by
  induction items generalizing top count with
  | nil => rfl
  | cons x rest induction => simp [number, induction]

theorem mem_of_numbered {top : Option Int} {count : Nat} {items : List α} {pair : α × Nat}
    (member : pair ∈ number lo hi gap top count items) : pair.1 ∈ items := by
  rw [← number_items top count items]
  exact List.mem_map_of_mem member

theorem count_le_number {top : Option Int} {count : Nat} {items : List α} {pair : α × Nat}
    (member : pair ∈ number lo hi gap top count items) : count ≤ pair.2 := by
  induction items generalizing top count with
  | nil => cases member
  | cons x rest induction =>
      rw [number] at member
      have atLeast : count ≤
          if top.any fun highest => gap < lo x - highest then count + 1 else count := by
        split <;> omega
      rcases List.mem_cons.mp member with rfl | later
      · exact atLeast
      · exact atLeast.trans (induction later)

theorem cut_perm {items others : List α} (perm : items.Perm others) (place : Int) :
    Cut lo hi gap items place ↔ Cut lo hi gap others place :=
  ⟨fun cut x member => cut x (perm.mem_iff.mpr member),
    fun cut x member => cut x (perm.mem_iff.mp member)⟩

theorem later_island {highest : Int} {count : Nat} {items : List α}
    (sorted : items.Pairwise fun x y => lo x ≤ lo y) {pair : α × Nat}
    (member : pair ∈ number lo hi gap (some highest) count items) :
    count < pair.2 ↔ ∃ place, highest + gap < place ∧ Cut lo hi gap items place ∧
      place ≤ lo pair.1 := by
  induction items generalizing highest count with
  | nil => cases member
  | cons x rest induction =>
      obtain ⟨above, sortedRest⟩ := List.pairwise_cons.mp sorted
      simp only [number, Option.any_some, decide_eq_true_eq, Option.elim_some] at member
      by_cases breaks : gap < lo x - highest
      · rw [if_pos breaks] at member
        have opens : Cut lo hi gap (x :: rest) (lo x) := by
          intro y yMem
          rcases List.mem_cons.mp yMem with rfl | later
          · exact .inr le_rfl
          · exact .inr (above y later)
        rcases List.mem_cons.mp member with rfl | later
        · exact ⟨fun _ => ⟨lo x, by omega, opens, le_rfl⟩, fun _ => Nat.lt_succ_self count⟩
        · have more := count_le_number later
          exact ⟨fun _ => ⟨lo x, by omega, opens, above _ (mem_of_numbered later)⟩, fun _ => more⟩
      · rw [if_neg breaks] at member
        have passed {place : Int} (beyond : highest + gap < place) : ¬place ≤ lo x := by omega
        rcases List.mem_cons.mp member with rfl | later
        · constructor
          · exact fun more => absurd more (lt_irrefl _)
          · intro ⟨place, beyond, _, reached⟩
            exact absurd reached (passed beyond)
        · rw [induction sortedRest later]
          apply exists_congr
          intro place
          have limits : max highest (hi x) + gap < place ↔
              highest + gap < place ∧ hi x + gap < place := by
            omega
          rw [limits, and_assoc]
          apply and_congr_right
          intro beyond
          rw [← and_assoc]
          apply and_congr_left
          intro _
          constructor
          · intro ⟨ended, cut⟩ y yMem
            rcases List.mem_cons.mp yMem with rfl | inRest
            · exact .inl ended
            · exact cut y inRest
          · intro cut
            exact ⟨(cut x List.mem_cons_self).resolve_right (passed beyond),
              fun y yMem => cut y (List.mem_cons_of_mem _ yMem)⟩

theorem same_island_after {highest : Int} {count : Nat} {items : List α}
    (sorted : items.Pairwise fun x y => lo x ≤ lo y) (ends : ∀ x ∈ items, lo x ≤ hi x)
    (positive : 0 ≤ gap) {x y : α × Nat} (xMem : x ∈ number lo hi gap (some highest) count items)
    (yMem : y ∈ number lo hi gap (some highest) count items) :
    x.2 = y.2 ↔ ∀ place, highest + gap < place → Cut lo hi gap items place →
      (place ≤ lo x.1 ↔ place ≤ lo y.1) := by
  induction items generalizing highest count with
  | nil => cases xMem
  | cons first rest induction =>
      obtain ⟨above, sortedRest⟩ := List.pairwise_cons.mp sorted
      have endsRest : ∀ x ∈ rest, lo x ≤ hi x := fun x member =>
        ends x (List.mem_cons_of_mem _ member)
      have ended := ends first List.mem_cons_self
      simp only [number, Option.any_some, decide_eq_true_eq, Option.elim_some] at xMem yMem
      set island := if gap < lo first - highest then count + 1 else count with isIsland
      -- a cut the first interval lies below is a cut of the rest above its end
      have below {place : Int} (beyond : highest + gap < place)
          (cut : Cut lo hi gap (first :: rest) place) (after : lo first < place) :
          max highest (hi first) + gap < place ∧ Cut lo hi gap rest place := by
        have under := (cut first List.mem_cons_self).resolve_right (by omega)
        exact ⟨by omega, fun z zMem => cut z (List.mem_cons_of_mem _ zMem)⟩
      have widen {place : Int} (beyond : max highest (hi first) + gap < place)
          (cut : Cut lo hi gap rest place) :
          highest + gap < place ∧ Cut lo hi gap (first :: rest) place := by
        refine ⟨by omega, fun z zMem => ?_⟩
        rcases List.mem_cons.mp zMem with rfl | inRest
        · exact .inl (by omega)
        · exact cut z inRest
      have head {z : α × Nat}
          (zMem : z ∈ number lo hi gap (some (max highest (hi first))) island rest) :
          island = z.2 ↔ ∀ place, highest + gap < place → Cut lo hi gap (first :: rest) place →
            (place ≤ lo first ↔ place ≤ lo z.1) := by
        have atLeast := count_le_number zMem
        have lowest := above z.1 (mem_of_numbered zMem)
        have one : island = z.2 ↔ ¬island < z.2 := by omega
        rw [one, later_island sortedRest zMem]
        constructor
        · intro none place beyond cut
          refine ⟨fun reached => reached.trans lowest, fun reached => ?_⟩
          by_contra after
          obtain ⟨further, inRest⟩ := below beyond cut (by omega)
          exact none ⟨place, further, inRest, reached⟩
        · intro same ⟨place, further, inRest, reached⟩
          obtain ⟨beyond, cut⟩ := widen further inRest
          have early := (same place beyond cut).mpr reached
          omega
      rcases List.mem_cons.mp xMem with rfl | xRest
      · rcases List.mem_cons.mp yMem with rfl | yRest
        · simp
        · exact head yRest
      · rcases List.mem_cons.mp yMem with rfl | yRest
        · rw [eq_comm, head xRest]
          exact ⟨fun same place beyond cut => (same place beyond cut).symm,
            fun same place beyond cut => (same place beyond cut).symm⟩
        · rw [induction sortedRest endsRest xRest yRest]
          constructor
          · intro same place beyond cut
            by_cases after : lo first < place
            · obtain ⟨further, inRest⟩ := below beyond cut after
              exact same place further inRest
            · have xAbove := above x.1 (mem_of_numbered xRest)
              have yAbove := above y.1 (mem_of_numbered yRest)
              exact ⟨fun _ => by omega, fun _ => by omega⟩
          · intro same place further inRest
            obtain ⟨beyond, cut⟩ := widen further inRest
            exact same place beyond cut

theorem same_island {items : List α} (sorted : items.Pairwise fun x y => lo x ≤ lo y)
    (ends : ∀ x ∈ items, lo x ≤ hi x) (positive : 0 ≤ gap) {x y : α × Nat}
    (xMem : x ∈ number lo hi gap none 0 items) (yMem : y ∈ number lo hi gap none 0 items) :
    x.2 = y.2 ↔ Together lo hi gap items x.1 y.1 := by
  cases items with
  | nil => cases xMem
  | cons first rest =>
      obtain ⟨above, sortedRest⟩ := List.pairwise_cons.mp sorted
      have ended := ends first List.mem_cons_self
      -- before the first interval there is an end as low as one likes
      have numbered : number lo hi gap none 0 (first :: rest) =
          number lo hi gap (some (lo first - gap)) 0 (first :: rest) := by
        simp only [number, Option.any_none, Option.any_some, Option.elim_none, Option.elim_some]
        have close : ¬lo first - (lo first - gap) > gap := by omega
        have highest : max (lo first - gap) (hi first) = hi first := by omega
        simp only [highest, decide_eq_false close]
      rw [numbered] at xMem yMem
      rw [same_island_after sorted ends positive xMem yMem]
      constructor
      · intro same place cut
        by_cases beyond : lo first - gap + gap < place
        · exact same place beyond cut
        · have lowest (z : α × Nat)
              (zMem : z ∈ number lo hi gap (some (lo first - gap)) 0 (first :: rest)) :
              place ≤ lo z.1 := by
            rcases List.mem_cons.mp (mem_of_numbered zMem) with isFirst | inRest
            · rw [isFirst]
              omega
            · have := above z.1 inRest
              omega
          exact ⟨fun _ => lowest y yMem, fun _ => lowest x xMem⟩
      · exact fun same place _ cut => same place cut

theorem Together.symm {items : List α} {x y : α} (same : Together lo hi gap items x y) :
    Together lo hi gap items y x :=
  fun place cut => (same place cut).symm

theorem Together.trans {items : List α} {x y z : α} (first : Together lo hi gap items x y)
    (second : Together lo hi gap items y z) : Together lo hi gap items x z :=
  fun place cut => (first place cut).trans (second place cut)

open Classical in
theorem island_chain {items : List α} (sorted : items.Pairwise fun x y => lo x ≤ lo y)
    (ends : ∀ x ∈ items, lo x ≤ hi x) (positive : 0 ≤ gap) (x : α) :
    Chain lo hi gap (items.filter fun y => Together lo hi gap items x y) := by
  constructor
  · exact sorted.filter _
  · intro earlier y later isChain isSome
    by_contra apart
    have inChain (z : α) (member : z ∈ earlier ++ y :: later) :
        z ∈ items ∧ Together lo hi gap items x z := by
      rw [← isChain] at member
      simpa using member
    obtain ⟨yItem, yIsland⟩ := inChain y (by simp)
    have chainSorted : (earlier ++ y :: later).Pairwise fun x y => lo x ≤ lo y :=
      isChain ▸ sorted.filter _
    have far (z : α) (member : z ∈ earlier) : hi z + gap < lo y := by
      by_contra near
      exact apart ⟨z, member, by omega⟩
    -- so the chain would be cut where it goes on
    have cut : Cut lo hi gap items (lo y) := by
      intro z zItem
      by_cases before : lo z < lo y
      · left
        by_cases isIsland : Together lo hi gap items x z
        · have member : z ∈ earlier ++ y :: later := by
            rw [← isChain]
            simp [zItem, isIsland]
          rcases List.mem_append.mp member with inEarlier | inLater
          · exact far z inEarlier
          · rcases List.mem_cons.mp inLater with rfl | inLater
            · omega
            · have := (List.pairwise_cons.mp (List.pairwise_append.mp chainSorted).2.1).1 z inLater
              omega
        · have parted : ∃ place, Cut lo hi gap items place ∧ ¬(place ≤ lo x ↔ place ≤ lo z) := by
            by_contra none
            refine isIsland fun place cut => ?_
            by_contra differs
            exact none ⟨place, cut, differs⟩
          obtain ⟨place, cut, differs⟩ := parted
          have sameSide := yIsland place cut
          have sides := cut z zItem
          omega
      · exact .inr (by omega)
    obtain ⟨z, zMem⟩ := List.exists_mem_of_ne_nil _ isSome
    obtain ⟨zItem, zIsland⟩ := inChain z (List.mem_append_left _ zMem)
    have reached := ((zIsland.symm.trans yIsland) (lo y) cut).mpr le_rfl
    have := far z zMem
    have := ends z zItem
    omega

theorem Chain.together {items chain : List α} (isChain : Chain lo hi gap chain)
    (among : ∀ z ∈ chain, z ∈ items) {x y : α} (xMem : x ∈ chain) (yMem : y ∈ chain) :
    Together lo hi gap items x y := by
  intro place cut
  by_contra differs
  -- the first of the chain above the cut
  obtain ⟨z, zMem, above⟩ : ∃ z ∈ chain, place ≤ lo z := by
    by_cases reached : place ≤ lo x
    · exact ⟨x, xMem, reached⟩
    · exact ⟨y, yMem, by tauto⟩
  obtain ⟨w, wMem, below⟩ : ∃ w ∈ chain, ¬place ≤ lo w := by
    by_cases reached : place ≤ lo x
    · exact ⟨y, yMem, by tauto⟩
    · exact ⟨x, xMem, reached⟩
  have parted : chain = chain.takeWhile (fun z => decide (lo z < place)) ++
      chain.dropWhile fun z => decide (lo z < place) := List.takeWhile_append_dropWhile.symm
  cases isRest : chain.dropWhile fun z => decide (lo z < place) with
  | nil =>
      rw [isRest, List.append_nil] at parted
      rw [parted] at zMem
      have under := List.mem_takeWhile_imp zMem
      simp only [decide_eq_true_eq] at under
      omega
  | cons first later =>
      rw [isRest] at parted
      have firstAbove : place ≤ lo first := by
        have := List.head?_dropWhile_not (fun z => decide (lo z < place)) chain
        rw [isRest] at this
        simpa using this
      have isSome : chain.takeWhile (fun z => decide (lo z < place)) ≠ [] := by
        intro empty
        rw [empty, List.nil_append] at parted
        have sorted := parted ▸ isChain.ordered
        rw [parted] at wMem
        rcases List.mem_cons.mp wMem with rfl | inLater
        · exact below firstAbove
        · exact below (firstAbove.trans ((List.pairwise_cons.mp sorted).1 w inLater))
      obtain ⟨earlier, earlierMem, near⟩ := isChain.reached _ first later parted isSome
      have under := List.mem_takeWhile_imp earlierMem
      have sides := cut earlier (among earlier (List.takeWhile_subset _ earlierMem))
      simp only [decide_eq_true_eq] at under
      omega

theorem connected_iff {items : List α} (sorted : items.Pairwise fun x y => lo x ≤ lo y)
    (ends : ∀ x ∈ items, lo x ≤ hi x) (positive : 0 ≤ gap) {x y : α} (xMem : x ∈ items)
    (yMem : y ∈ items) : Connected lo hi gap items x y ↔ Together lo hi gap items x y := by
  classical
  constructor
  · intro ⟨chain, isChain, among, xChain, yChain⟩
    exact isChain.together among xChain yChain
  · intro same
    refine ⟨_, island_chain sorted ends positive x, ?_, ?_, ?_⟩
    · exact fun z member => (List.mem_filter.mp member).1
    · simp only [List.mem_filter, xMem, true_and, decide_eq_true_eq]
      exact fun _ _ => Iff.rfl
    · simpa [yMem] using same

end Omnibus.Library.Islands
