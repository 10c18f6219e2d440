import Mathlib.Data.List.Sort
import Omnibus.Library.Runs

/-!
# Work drained a page at a time

A list of owed items with keys of their own. A page is its first items; settling a page takes
the items of its keys away and leaves the rest in their order, so a run that settles enough
pages leaves nothing.
-/

namespace Omnibus.Library.Drain

open Omnibus.Library.Runs

section Pages

variable {Item Key : Type*} [DecidableEq Key] (key : Item → Key)

theorem filter_not_in_page (size : Nat) (items : List Item) (apart : (items.map key).Nodup) :
    (items.filter fun item => key item ∉ (items.take size).map key) = items.drop size := by
  let page := (items.take size).map key
  have split : (page ++ (items.drop size).map key).Nodup := by
    rwa [← List.map_append, List.take_append_drop]
  have inPage : ((items.take size).filter fun item => key item ∉ page) = [] := by
    rw [List.filter_eq_nil_iff]
    intro item member
    rw [decide_eq_true_eq, not_not]
    exact List.mem_map_of_mem member
  have afterPage : ((items.drop size).filter fun item => key item ∉ page) = items.drop size := by
    rw [List.filter_eq_self]
    intro item member
    rw [decide_eq_true_eq]
    intro taken
    exact (List.nodup_append.mp split).2.2 _ taken _ (List.mem_map_of_mem member) rfl
  calc (items.filter fun item => key item ∉ page)
      = ((items.take size ++ items.drop size).filter fun item => key item ∉ page) := by
        rw [List.take_append_drop]
    _ = items.drop size := by rw [List.filter_append, inPage, afterPage, List.nil_append]

theorem filter_insertion_sort {Value : Type*} [LinearOrder Value] (keep : Value → Bool)
    (values : List Value) :
    (values.insertionSort (· ≤ ·)).filter keep =
      (values.filter keep).insertionSort (· ≤ ·) := by
  apply List.Perm.eq_of_pairwise' (r := (· ≤ ·))
  · exact (List.pairwise_insertionSort _ values).filter _
  · exact List.pairwise_insertionSort _ _
  · exact ((List.perm_insertionSort _ values).filter keep).trans
      (List.perm_insertionSort _ _).symm

end Pages

section Runs

variable {State Action Item : Type*} {step : State → Action → Option State}
  {invariant : State → Prop} {allowed : Action → Prop} {work : State → List Item} {size : Nat}
  {settles : Action → Bool}

theorem run_drains
    (keeps : ∀ state action next, invariant state → allowed action →
      step state action = some next → invariant next ∧
        work next = if settles action then (work state).drop size else work state)
    {state last : State} (actions : List Action) (start : invariant state)
    (all : ∀ action ∈ actions, allowed action) (ran : run step state actions = some last) :
    work last = (work state).drop (size * actions.countP settles) := by
  induction actions generalizing state with
  | nil =>
      rw [run, Option.some.injEq] at ran
      rw [ran, List.countP_nil, Nat.mul_zero, List.drop_zero]
  | cons action rest induction =>
      obtain ⟨next, stepped, later⟩ := Option.bind_eq_some_iff.mp ran
      obtain ⟨kept, left⟩ := keeps state action next start (all action List.mem_cons_self) stepped
      rw [induction kept (fun other member => all other (List.mem_cons_of_mem _ member)) later,
        left, List.countP_cons]
      cases settles action with
      | false => simp
      | true =>
          simp only [if_true, List.drop_drop]
          rw [Nat.mul_add, Nat.mul_one, Nat.add_comm]

def pagesOf (size count : Nat) : Nat := (count + size - 1) / size

theorem le_mul_pages_of (size count : Nat) (positive : 0 < size) :
    count ≤ size * pagesOf size count := by
  have remainder := Nat.div_add_mod (count + size - 1) size
  have bound := Nat.mod_lt (count + size - 1) positive
  unfold pagesOf
  omega

end Runs

end Omnibus.Library.Drain
