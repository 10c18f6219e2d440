import Mathlib.Data.Finset.Card
import Omnibus.Outbox.Order

/-!
# Every pass ends

The ops a pass may still reach are the pending rows up to its ceiling and the window it holds.
The set only shrinks: a new row's id is above every ceiling read before it. A sweep is
followed by another only after it took an op out of the set, so what a pass has left to do is a
number that its own steps lower and that no other step raises.
-/

namespace Omnibus.Outbox

open Omnibus.Library.Strings
open Omnibus.Library.Runs

def pendingIds (ops : Ops) (ceiling : Nat) : Finset Nat :=
  ((ops.pendingUpTo ceiling).map (·.id)).toFinset

theorem mem_pending_ids (ops : Ops) (ceiling id : Nat) :
    id ∈ pendingIds ops ceiling ↔
      ∃ row ∈ ops.rows, row.pending = true ∧ row.id ≤ ceiling ∧ row.id = id := by
  simp [pendingIds, Ops.pendingUpTo, and_assoc]

def Stage.window (stage : Stage) : List PendingOp := (stage.sweep?.map (·.ops)).getD []

def windowIds (stage : Stage) : Finset Nat := (stage.window.map (·.id)).toFinset

def Stage.retired (stage : Stage) : Nat := (stage.sweep?.map (·.retired)).getD 0

/-- The awaits a sweep has before its end; an op takes four at most. -/
def sweepLeft : Stage → Nat
  | .visiting sweep => 4 * sweep.rest.length + 1
  | .replaying _ sweep => 4 * sweep.rest.length + 4
  | .accepted _ sweep => 4 * sweep.rest.length + 3
  | .rejected _ _ sweep => 4 * sweep.rest.length + 3
  | .failing _ _ _ sweep => 4 * sweep.rest.length + 2
  | .attempted _ _ sweep => 4 * sweep.rest.length + 3
  | .parking _ _ sweep => 4 * sweep.rest.length + 2
  | _ => 0

/-- More than any sweep takes. -/
def sweepBound : Nat := 4 * Ops.listLimit + 3

def work (ops : Ops) (ceiling : Nat) (stage : Stage) : Nat :=
  match stage with
  | .waiting => ((pendingIds ops ceiling).card + 1) * sweepBound + 1
  | .sweepNext => ((pendingIds ops ceiling).card + 1) * sweepBound
  | .drained => 1
  | .finished => 0
  | _ => (pendingIds ops ceiling ∪ windowIds stage).card * sweepBound + sweepLeft stage + 1

theorem work_mono (before after : Ops) (ceiling : Nat) (stage : Stage)
    (fewer : pendingIds after ceiling ⊆ pendingIds before ceiling) :
    work after ceiling stage ≤ work before ceiling stage := by
  have pending : ((pendingIds after ceiling).card + 1) * sweepBound ≤
      ((pendingIds before ceiling).card + 1) * sweepBound :=
    Nat.mul_le_mul_right sweepBound (Nat.succ_le_succ (Finset.card_le_card fewer))
  have reached := Nat.mul_le_mul_right sweepBound
    (Finset.card_le_card (Finset.union_subset_union fewer (Finset.Subset.refl (windowIds stage))))
  cases stage <;> simp only [work] <;> omega

theorem pending_ids_marked (before after : Ops) (ceiling : Nat) (marked : before.Marked after) :
    pendingIds after ceiling ⊆ pendingIds before ceiling := by
  obtain ⟨-, update, rows, keeps⟩ := marked
  intro id member
  rw [mem_pending_ids, rows] at member
  obtain ⟨row, isRow, pending, below, same⟩ := member
  obtain ⟨old, isOld, rfl⟩ := List.mem_map.mp isRow
  have sameId := (PendingOp.request_parts (keeps old).1).1
  rw [mem_pending_ids]
  refine ⟨old, isOld, ?_, by omega, by omega⟩
  by_contra held
  rw [(keeps old).2 (by simpa using held)] at pending
  cases pending

theorem pending_ids_delete (ops : Ops) (ids : List Nat) (ceiling : Nat) :
    pendingIds (ops.deleteOps ids) ceiling ⊆ pendingIds ops ceiling := by
  intro id member
  rw [mem_pending_ids] at member ⊢
  obtain ⟨row, isRow, rest⟩ := member
  exact ⟨row, List.mem_of_mem_filter isRow, rest⟩

theorem pending_ids_pass_step (ceiling bound : Nat) (answer : Answer) (store : OfflineStore)
    (stage : Stage) :
    pendingIds (passStep ceiling answer store stage).1 bound ⊆ pendingIds store.ops bound := by
  cases stage with
  | waiting => exact Finset.Subset.refl _
  | sweepNext => exact Finset.Subset.refl _
  | visiting => exact Finset.Subset.refl _
  | replaying => exact Finset.Subset.refl _
  | accepted => exact pending_ids_delete _ _ _
  | rejected => exact pending_ids_marked _ _ _ (store.ops.marked_note_failure _ _)
  | failing => exact pending_ids_marked _ _ _ (store.ops.marked_fail_referencing _ _ _)
  | attempted => exact pending_ids_marked _ _ _ (store.ops.marked_note_attempt _)
  | parking => exact pending_ids_marked _ _ _ (store.ops.marked_note_failure _ _)
  | drained => exact Finset.Subset.refl _
  | finished => exact Finset.Subset.refl _

theorem pending_ids_queue_write (world : World) (request : Write) (fault : Fault)
    (ceiling : Nat) (below : ceiling ≤ world.store.ops.seq) :
    pendingIds (world.queueWrite request fault).1.store.ops ceiling ⊆
      pendingIds world.store.ops ceiling := by
  obtain ⟨sameStore, -, -⟩ | inserted := queue_write_cases world request fault
  · rw [sameStore]
  · obtain ⟨fresh, -, -, -, left, new, ⟨-, keep, leftRows, -⟩, rows, newId, -, -⟩ := inserted
    intro id member
    rw [mem_pending_ids, rows, leftRows] at member
    obtain ⟨row, isRow, pending, under, same⟩ := member
    rw [mem_pending_ids]
    obtain kept | isNew := List.mem_append.mp isRow
    · exact ⟨row, List.mem_of_mem_filter kept, pending, under, same⟩
    · rw [List.mem_singleton] at isNew
      subst isNew
      omega

structure Shrinking (ops : Ops) (ceiling : Nat) (stage : Stage) : Prop where
  within : stage.inHand.Sublist stage.window
  retired : 0 < stage.retired → ∃ op ∈ stage.window, op.id ∉ pendingIds ops ceiling
  noted : ∀ op token detail sweep, stage = .failing op token detail sweep →
    op.id ∉ pendingIds ops ceiling

theorem shrinking_of_no_sweep (ops : Ops) (ceiling : Nat) (stage : Stage)
    (none : stage.sweep? = none) : Shrinking ops ceiling stage := by
  cases stage with
  | waiting => exact ⟨List.Sublist.refl _, by simp [Stage.retired, Stage.sweep?], by simp⟩
  | sweepNext => exact ⟨List.Sublist.refl _, by simp [Stage.retired, Stage.sweep?], by simp⟩
  | drained => exact ⟨List.Sublist.refl _, by simp [Stage.retired, Stage.sweep?], by simp⟩
  | finished => exact ⟨List.Sublist.refl _, by simp [Stage.retired, Stage.sweep?], by simp⟩
  | visiting => cases none
  | replaying => cases none
  | accepted => cases none
  | rejected => cases none
  | failing => cases none
  | attempted => cases none
  | parking => cases none

theorem shrinking_elsewhere (before after : Ops) (ceiling : Nat) (stage : Stage)
    (fewer : pendingIds after ceiling ⊆ pendingIds before ceiling)
    (shrinking : Shrinking before ceiling stage) : Shrinking after ceiling stage := by
  refine ⟨shrinking.within, ?_, ?_⟩
  · intro some'
    obtain ⟨op, member, gone⟩ := shrinking.retired some'
    exact ⟨op, member, fun still => gone (fewer still)⟩
  · intro op token detail sweep same still
    exact shrinking.noted op token detail sweep same (fewer still)

theorem not_pending_deleted (ops : Ops) (id ceiling : Nat) :
    id ∉ pendingIds (ops.deleteOps [id]) ceiling := by
  rw [mem_pending_ids]
  rintro ⟨row, isRow, -, -, same⟩
  have kept := (List.mem_filter.mp isRow).2
  simp [same] at kept

theorem not_pending_noted (ops : Ops) (id ceiling : Nat) (message : Text) :
    id ∉ pendingIds (ops.noteOpFailure id message) ceiling := by
  rw [mem_pending_ids]
  rintro ⟨row, isRow, pending, -, same⟩
  obtain ⟨old, -, rfl⟩ := List.mem_map.mp isRow
  by_cases taken : old.id = id
  · simp [taken, PendingOp.pending] at pending
  · simp [taken] at same

theorem window_listed (store : OfflineStore) (ceiling : Nat) :
    (((store.listOps ceiling).map (·.id)).toFinset) ⊆ pendingIds store.ops ceiling := by
  intro id member
  obtain ⟨op, listed, rfl⟩ := List.mem_map.mp (List.mem_toFinset.mp member)
  obtain ⟨isRow, pending, below⟩ := list_ops_mem store ceiling op listed
  exact (mem_pending_ids _ _ _).mpr ⟨op, isRow, pending, below, rfl⟩

theorem list_ops_length (store : OfflineStore) (ceiling : Nat) :
    (store.listOps ceiling).length ≤ Ops.listLimit := by
  unfold OfflineStore.listOps
  split
  · exact List.length_take_le _ _
  · exact Nat.zero_le _

theorem reach_exceeds_pending (ops : Ops) (ceiling : Nat) (stage : Stage)
    (shrinking : Shrinking ops ceiling stage) (some' : 0 < stage.retired) :
    (pendingIds ops ceiling).card + 1 ≤ (pendingIds ops ceiling ∪ windowIds stage).card := by
  obtain ⟨op, member, gone⟩ := shrinking.retired some'
  have inWindow : op.id ∈ windowIds stage := List.mem_toFinset.mpr (List.mem_map_of_mem member)
  apply Finset.card_lt_card
  rw [Finset.ssubset_iff_of_subset Finset.subset_union_left]
  exact ⟨op.id, Finset.mem_union_right _ inWindow, gone⟩

theorem work_pass_step (ceiling : Nat) (answer : Answer) (store : OfflineStore) (stage : Stage)
    (shrinking : Shrinking store.ops ceiling stage) (unfinished : stage ≠ .finished) :
    work (passStep ceiling answer store stage).1 ceiling (passStep ceiling answer store stage).2 <
      work store.ops ceiling stage := by
  have fewer := pending_ids_pass_step ceiling ceiling answer store stage
  -- The set in reach does not grow while the window stays.
  have reached (sweep : Sweep) : (pendingIds (passStep ceiling answer store stage).1 ceiling ∪
      windowIds (.visiting sweep)).card * sweepBound ≤
        (pendingIds store.ops ceiling ∪ windowIds (.visiting sweep)).card * sweepBound :=
    Nat.mul_le_mul_right _ (Finset.card_le_card
      (Finset.union_subset_union fewer (Finset.Subset.refl _)))
  cases stage with
  | waiting => exact Nat.lt_succ_self _
  | sweepNext =>
      have split : ((pendingIds store.ops ceiling).card + 1) * sweepBound =
          (pendingIds store.ops ceiling).card * sweepBound + sweepBound := Nat.succ_mul _ _
      have bound : sweepBound = 803 := rfl
      simp only [passStep]
      split
      · simp only [work]
        omega
      · have listed := list_ops_length store ceiling
        have limit : Ops.listLimit = 200 := rfl
        have same : pendingIds store.ops ceiling ∪
            windowIds (.visiting ⟨store.listOps ceiling, store.listOps ceiling, 0, []⟩) =
              pendingIds store.ops ceiling :=
          Finset.union_eq_left.mpr (window_listed store ceiling)
        simp only [work, same, sweepLeft]
        omega
  | visiting sweep =>
      obtain ⟨ops, rest, retired, stalled⟩ := sweep
      cases rest with
      | nil =>
          simp only [passStep, visit]
          split
          · rename_i some'
            have exceeds := Nat.mul_le_mul_right sweepBound
              (reach_exceeds_pending store.ops ceiling _ shrinking some')
            simp only [work]
            omega
          · simp only [work, sweepLeft]
            omega
      | cons op rest =>
          have more : (op :: rest).length = rest.length + 1 := rfl
          simp only [passStep, visit]
          split
          · simp only [work, sweepLeft, windowIds, Stage.window, Stage.sweep?, Option.map_some,
              Option.getD_some]
            omega
          · simp only [work, sweepLeft, windowIds, Stage.window, Stage.sweep?, Option.map_some,
              Option.getD_some]
            omega
  | replaying op sweep =>
      obtain same | same | ⟨detail, same⟩ | ⟨message, same⟩ := received_cases op sweep answer
      · simp only [passStep, same, work, sweepLeft, windowIds, Stage.window, Stage.sweep?]
        omega
      · simp only [passStep, same, work, sweepLeft]
        omega
      · simp only [passStep, same, work, sweepLeft, windowIds, Stage.window, Stage.sweep?]
        omega
      · simp only [passStep, same, work, sweepLeft, windowIds, Stage.window, Stage.sweep?]
        omega
  | accepted op sweep =>
      have within := reached sweep
      simp only [passStep, work, sweepLeft, windowIds, Stage.window, Stage.sweep?, Sweep.retire,
        Option.map_some, Option.getD_some] at within ⊢
      omega
  | rejected op detail sweep =>
      have within := reached sweep
      simp only [passStep] at within ⊢
      split
      · simp only [work, sweepLeft, windowIds, Stage.window, Stage.sweep?, Option.map_some,
          Option.getD_some] at within ⊢
        omega
      · simp only [work, sweepLeft, windowIds, Stage.window, Stage.sweep?, Sweep.retire,
          Option.map_some, Option.getD_some] at within ⊢
        omega
  | failing op token detail sweep =>
      have within := reached sweep
      simp only [passStep, work, sweepLeft, windowIds, Stage.window, Stage.sweep?, Sweep.retire,
        Option.map_some, Option.getD_some] at within ⊢
      omega
  | attempted op message sweep =>
      have within := reached sweep
      simp only [passStep] at within ⊢
      split
      · simp only [work, sweepLeft, windowIds, Stage.window, Stage.sweep?, Option.map_some,
          Option.getD_some] at within ⊢
        omega
      · simp only [work, sweepLeft, windowIds, Stage.window, Stage.sweep?, Sweep.stall,
          Option.map_some, Option.getD_some] at within ⊢
        omega
  | parking op message sweep =>
      have within := reached sweep
      simp only [passStep, work, sweepLeft, windowIds, Stage.window, Stage.sweep?, Sweep.stall,
        Option.map_some, Option.getD_some] at within ⊢
      omega
  | drained => exact Nat.zero_lt_one
  | finished => exact absurd rfl unfinished

theorem shrinking_same_sweep (before after : Ops) (ceiling : Nat) (stage next : Stage)
    (fewer : pendingIds after ceiling ⊆ pendingIds before ceiling)
    (shrinking : Shrinking before ceiling stage) (hand : next.inHand.Sublist stage.inHand)
    (window : next.window = stage.window) (retired : next.retired = stage.retired)
    (noted : ∀ op token detail sweep, next = .failing op token detail sweep →
      op.id ∉ pendingIds after ceiling) : Shrinking after ceiling next := by
  refine ⟨?_, ?_, noted⟩
  · rw [window]
    exact hand.trans shrinking.within
  · intro some'
    rw [retired] at some'
    obtain ⟨op, member, gone⟩ := shrinking.retired some'
    rw [window]
    exact ⟨op, member, fun still => gone (fewer still)⟩

theorem shrinking_retire (before after : Ops) (ceiling : Nat) (stage : Stage) (op : PendingOp)
    (sweep : Sweep) (shrinking : Shrinking before ceiling stage)
    (hand : stage.inHand = op :: sweep.rest) (window : stage.window = sweep.ops)
    (gone : op.id ∉ pendingIds after ceiling) :
    Shrinking after ceiling (.visiting sweep.retire) := by
  have within := shrinking.within
  rw [hand, window] at within
  refine ⟨(List.sublist_cons_self op sweep.rest).trans within, ?_, by simp⟩
  intro _
  exact ⟨op, within.subset List.mem_cons_self, gone⟩

theorem shrinking_pass_step (ceiling : Nat) (answer : Answer) (store : OfflineStore)
    (stage : Stage) (shrinking : Shrinking store.ops ceiling stage) :
    Shrinking (passStep ceiling answer store stage).1 ceiling
      (passStep ceiling answer store stage).2 := by
  have fewer := pending_ids_pass_step ceiling ceiling answer store stage
  cases stage with
  | waiting => exact shrinking_of_no_sweep _ _ _ rfl
  | drained => exact shrinking_of_no_sweep _ _ _ rfl
  | finished => exact shrinking_of_no_sweep _ _ _ rfl
  | sweepNext =>
      simp only [passStep]
      split
      · exact shrinking_of_no_sweep _ _ _ rfl
      · exact ⟨List.Sublist.refl _, by simp [Stage.retired, Stage.sweep?], by simp⟩
  | visiting sweep =>
      obtain ⟨ops, rest, retired, stalled⟩ := sweep
      cases rest with
      | nil =>
          simp only [passStep, visit]
          split <;> exact shrinking_of_no_sweep _ _ _ rfl
      | cons op rest =>
          simp only [passStep, visit]
          split
          · exact shrinking_same_sweep _ _ ceiling _ _ (Finset.Subset.refl _) shrinking
              (List.sublist_cons_self op rest) rfl rfl (by simp)
          · exact shrinking_same_sweep _ _ ceiling _ _ (Finset.Subset.refl _) shrinking
              (List.Sublist.refl _) rfl rfl (by simp)
  | replaying op sweep =>
      obtain same | same | ⟨detail, same⟩ | ⟨message, same⟩ := received_cases op sweep answer
      · rw [passStep, same]
        exact shrinking_same_sweep _ _ ceiling _ _ (Finset.Subset.refl _) shrinking
          (List.Sublist.refl _) rfl rfl (by simp)
      · rw [passStep, same]
        exact shrinking_of_no_sweep _ _ _ rfl
      · rw [passStep, same]
        exact shrinking_same_sweep _ _ ceiling _ _ (Finset.Subset.refl _) shrinking
          (List.Sublist.refl _) rfl rfl (by simp)
      · rw [passStep, same]
        exact shrinking_same_sweep _ _ ceiling _ _ (Finset.Subset.refl _) shrinking
          (List.Sublist.refl _) rfl rfl (by simp)
  | accepted op sweep =>
      exact shrinking_retire _ _ ceiling _ op sweep shrinking rfl rfl
        (not_pending_deleted store.ops op.id ceiling)
  | rejected op detail sweep =>
      have gone := not_pending_noted store.ops op.id ceiling detail
      simp only [passStep] at fewer ⊢
      split
      · refine shrinking_same_sweep _ _ ceiling _ _ fewer shrinking ?_ rfl rfl ?_
        · exact List.Sublist.refl _
        · intro other token text sweep' same
          rw [Stage.failing.injEq] at same
          rw [← same.1]
          exact gone
      · exact shrinking_retire _ _ ceiling _ op sweep shrinking rfl rfl gone
  | failing op token detail sweep =>
      apply shrinking_retire _ _ ceiling _ op sweep shrinking rfl rfl
      exact fun still => shrinking.noted op token detail sweep rfl (fewer still)
  | attempted op message sweep =>
      simp only [passStep] at fewer ⊢
      split
      · exact shrinking_same_sweep _ _ ceiling _ _ fewer shrinking (List.Sublist.refl _) rfl rfl
          (by simp)
      · exact shrinking_same_sweep _ _ ceiling _ _ fewer shrinking
          (List.sublist_cons_self op sweep.rest) rfl rfl (by simp)
  | parking op message sweep =>
      simp only [passStep] at fewer ⊢
      exact shrinking_same_sweep _ _ ceiling _ _ fewer shrinking
        (List.sublist_cons_self op sweep.rest) rfl rfl (by simp)

theorem max_op_id_le (store : OfflineStore) : store.maxOpId ≤ store.ops.seq := by
  unfold OfflineStore.maxOpId
  split
  · unfold Ops.maxOpId
    have given : ∀ row ∈ store.ops.rows, row.id ≤ store.ops.seq :=
      fun row member => (store.ops.given row member).2
    revert given
    induction store.ops.rows with
    | nil => exact fun _ => Nat.zero_le _
    | cons row rest induction =>
        intro given
        rw [List.map_cons, List.foldr_cons]
        apply max_le
        · exact given row List.mem_cons_self
        · exact induction fun other member => given other (List.mem_cons_of_mem _ member)
  · exact Nat.zero_le _

theorem step_bounds (world : World) (action : Action) (next : World)
    (stepped : world.step action = some next) (call : Call) (member : call ∈ next.calls)
    (ceiling : Nat) (isBounded : call.stage = .bounded ceiling) :
    call ∈ world.calls ∨ ceiling = world.store.maxOpId := by
  cases action with
  | write request fault =>
      obtain rfl := Option.some.inj stepped
      obtain old | new := List.mem_append.mp member
      · exact Or.inl old
      · rw [List.mem_singleton.mp new] at isBounded
        cases isBounded
  | record request fault =>
      obtain rfl := Option.some.inj stepped
      exact Or.inl member
  | drain =>
      obtain rfl := Option.some.inj stepped
      obtain old | new := List.mem_append.mp member
      · exact Or.inl old
      · rw [List.mem_singleton.mp new] at isBounded
        cases isBounded
  | bound index =>
      simp only [World.step] at stepped
      split at stepped
      · obtain rfl := Option.some.inj stepped
        obtain rfl | old := mem_set_cases _ _ _ _ member
        · exact Or.inr (CallStage.bounded.inj isBounded).symm
        · exact Or.inl old
      · cases stepped
  | arrive index =>
      simp only [World.step] at stepped
      split at stepped
      · obtain rfl := Option.some.inj stepped
        obtain rfl | old := mem_set_cases _ _ _ _ member
        · cases isBounded
        · exact Or.inl old
      · cases stepped
  | resume index queryFails =>
      simp only [World.step] at stepped
      split at stepped
      · split at stepped
        · obtain rfl := Option.some.inj stepped
          obtain rfl | old := mem_set_cases _ _ _ _ member
          · cases isBounded
          · exact Or.inl old
        · cases stepped
      · cases stepped
  | advance id answer =>
      simp only [World.step] at stepped
      split at stepped
      · split at stepped
        · obtain rfl := Option.some.inj stepped
          exact Or.inl member
        · cases stepped
      · cases stepped
  | kill =>
      obtain rfl := Option.some.inj stepped
      cases member

/-- Every ceiling in play is one the table has given, and every pass shrinks what it reaches. -/
structure Bounded (world : World) : Prop where
  calls : ∀ call ∈ world.calls, ∀ ceiling, call.stage = .bounded ceiling →
    ceiling ≤ world.store.ops.seq
  ceilings : ∀ pass ∈ world.passes, pass.ceiling ≤ world.store.ops.seq
  shrinking : ∀ pass ∈ world.passes, Shrinking world.store.ops pass.ceiling pass.stage

theorem seq_pass_step (ceiling : Nat) (answer : Answer) (store : OfflineStore) (stage : Stage) :
    (passStep ceiling answer store stage).1.seq = store.ops.seq := by
  cases stage with
  | failing op token detail sweep => exact (store.ops.marked_fail_referencing _ _ _).1
  | waiting => rfl
  | sweepNext => rfl
  | visiting => rfl
  | replaying => rfl
  | accepted => rfl
  | rejected => rfl
  | attempted => rfl
  | parking => rfl
  | drained => rfl
  | finished => rfl

theorem seq_queue_write (world : World) (request : Write) (fault : Fault) :
    world.store.ops.seq ≤ (world.queueWrite request fault).1.store.ops.seq := by
  obtain ⟨sameStore, -, -⟩ | inserted := queue_write_cases world request fault
  · rw [sameStore]
  · have fresh := inserted.fresh
    have seq := inserted.seq
    omega

theorem seq_step (world : World) (action : Action) (next : World)
    (stepped : world.step action = some next) : world.store.ops.seq ≤ next.store.ops.seq := by
  obtain ⟨request, fault, calls, -, rfl⟩ | ⟨calls, -, rfl⟩ | ⟨_, _, ceiling, calls, -, -, rfl⟩ |
    ⟨id, answer, pass, -, found, -, rfl⟩ | ⟨-, rfl⟩ := world.step_cases action next stepped
  · exact seq_queue_write world request fault
  · exact le_rfl
  · obtain ⟨same, -⟩ | started := world.join_or_start_cases ceiling
    · rw [same]
    · rw [started]
  · exact (seq_pass_step pass.ceiling answer world.store pass.stage).ge
  · exact le_rfl

theorem bounded_step (world : World) (action : Action) (next : World) (bounded : Bounded world)
    (stepped : world.step action = some next) : Bounded next := by
  have grows := seq_step world action next stepped
  constructor
  · intro call member ceiling isBounded
    obtain old | same := step_bounds world action next stepped call member ceiling isBounded
    · exact (bounded.calls call old ceiling isBounded).trans grows
    · exact (same ▸ max_op_id_le world.store).trans grows
  · obtain ⟨request, fault, calls, -, rfl⟩ | ⟨calls, -, rfl⟩ |
      ⟨index, op, ceiling, calls, -, called, rfl⟩ | ⟨id, answer, pass, -, found, -, rfl⟩ |
      ⟨-, rfl⟩ := world.step_cases action next stepped
    · exact fun pass member => (bounded.ceilings pass member).trans grows
    · exact bounded.ceilings
    · obtain ⟨same, -⟩ | started := world.join_or_start_cases ceiling
      · rw [same]
        exact bounded.ceilings
      · rw [started]
        intro pass member
        rw [List.mem_append, List.mem_singleton] at member
        obtain old | rfl := member
        · exact bounded.ceilings pass old
        · exact bounded.calls _ (List.mem_of_getElem? called) ceiling rfl
    · intro other member
      apply le_trans _ grows
      obtain rfl | old := mem_set_cases _ _ _ _ member
      · exact bounded.ceilings pass (List.mem_of_getElem? found)
      · exact bounded.ceilings other old
    · simp
  · obtain ⟨request, fault, calls, -, rfl⟩ | ⟨calls, -, rfl⟩ | ⟨_, _, ceiling, calls, -, -, rfl⟩ |
      ⟨id, answer, pass, -, found, -, rfl⟩ | ⟨-, rfl⟩ := world.step_cases action next stepped
    · intro pass member
      exact shrinking_elsewhere _ _ _ _ (pending_ids_queue_write world request fault _
        (bounded.ceilings pass member)) (bounded.shrinking pass member)
    · exact bounded.shrinking
    · obtain ⟨same, -⟩ | started := world.join_or_start_cases ceiling
      · rw [same]
        exact bounded.shrinking
      · rw [started]
        intro pass member
        rw [List.mem_append, List.mem_singleton] at member
        obtain old | rfl := member
        · exact bounded.shrinking pass old
        · exact shrinking_of_no_sweep _ _ _ rfl
    · intro other member
      obtain rfl | old := mem_set_cases _ _ _ _ member
      · exact shrinking_pass_step _ _ _ _ (bounded.shrinking pass (List.mem_of_getElem? found))
      · exact shrinking_elsewhere _ _ _ _ (pending_ids_pass_step _ _ _ _ _)
          (bounded.shrinking other old)
    · simp

theorem bounded_launch (store : OfflineStore) : Bounded (World.launch store) := by
  constructor <;> simp [World.launch]

def Action.advances (id : Nat) : Action → Bool
  | .advance pass _ => pass = id
  | _ => false

/-- A step of the pass lowers what it has left; no other step of the launch raises it. -/
theorem work_step (world : World) (action : Action) (next : World) (bounded : Bounded world)
    (stepped : world.step action = some next) (alive : action ≠ .kill) (id : Nat) (pass : Pass)
    (found : world.passes[id]? = some pass) :
    ∃ later, next.passes[id]? = some later ∧
      work next.store.ops later.ceiling later.stage + (if action.advances id then 1 else 0) ≤
        work world.store.ops pass.ceiling pass.stage := by
  have isPass : pass ∈ world.passes := List.mem_of_getElem? found
  obtain ⟨request, fault, calls, isWrite, rfl⟩ | ⟨calls, quiet, rfl⟩ |
    ⟨_, _, ceiling, calls, isArrive, -, rfl⟩ | ⟨other, answer, moving, isAdvance, foundMoving,
      allowed, rfl⟩ | ⟨isKill, -⟩ := world.step_cases action next stepped
  · have still : action.advances id = false := by
      obtain rfl | rfl := isWrite <;> rfl
    refine ⟨pass, found, ?_⟩
    rw [still]
    exact work_mono _ _ _ _ (pending_ids_queue_write world request fault _
      (bounded.ceilings pass isPass))
  · have still : action.advances id = false := by
      cases action with
      | advance other answer => cases quiet
      | _ => rfl
    rw [still]
    exact ⟨pass, found, le_rfl⟩
  · have still : action.advances id = false := by
      subst isArrive
      rfl
    rw [still]
    obtain ⟨same, -⟩ | started := world.join_or_start_cases ceiling
    · rw [same]
      exact ⟨pass, found, le_rfl⟩
    · rw [started]
      refine ⟨pass, ?_, le_rfl⟩
      dsimp only
      rw [List.getElem?_append_left (List.getElem?_eq_some_iff.mp found).1]
      exact found
  · subst isAdvance
    by_cases here : id = other
    · subst here
      rw [found, Option.some.injEq] at foundMoving
      subst foundMoving
      refine ⟨_, (advance_passes world id pass answer found id).trans (if_pos rfl), ?_⟩
      have unfinished : pass.stage ≠ .finished := by
        intro finished
        simp [World.mayAdvance, finished] at allowed
      have lower := work_pass_step pass.ceiling answer world.store pass.stage
        (bounded.shrinking pass isPass) unfinished
      simp only [Action.advances, decide_true, if_true]
      exact lower
    · refine ⟨pass, (advance_passes world other moving answer foundMoving id).trans
        ((if_neg here).trans found), ?_⟩
      simp only [Action.advances, Ne.symm here, decide_false, Bool.false_eq_true, if_false]
      exact work_mono _ _ _ _ (pending_ids_pass_step _ _ _ _ _)
  · exact absurd isKill alive

theorem pass_steps_bounded (actions : List Action) (world last : World)
    (bounded : Bounded world) (alive : ∀ action ∈ actions, action ≠ .kill)
    (ran : run World.step world actions = some last) (id : Nat) (pass : Pass)
    (found : world.passes[id]? = some pass) :
    actions.countP (·.advances id) ≤ work world.store.ops pass.ceiling pass.stage := by
  induction actions generalizing world pass with
  | nil => exact Nat.zero_le _
  | cons action rest induction =>
      obtain ⟨next, stepped, later⟩ := Option.bind_eq_some_iff.mp ran
      obtain ⟨moved, foundMoved, lower⟩ := work_step world action next bounded stepped
        (alive action List.mem_cons_self) id pass found
      have restBound := induction next (bounded_step world action next bounded stepped)
        (fun other member => alive other (List.mem_cons_of_mem _ member)) later moved foundMoved
      rw [List.countP_cons]
      omega

/-- A mutation that is in the table, was accepted, or made way for a later write of a kind it
replaces that is itself kept. -/
inductive Kept (world : World) : Nat → Prop where
  | inTable (id : Nat) (present : world.store.ops.hasRow id = true) : Kept world id
  | accepted (id : Nat) (taken : world.log.wasAccepted id) : Kept world id
  | replaced (old : PendingOp) (later : Queued)
      (entry : (old, later.op.id) ∈ world.log.replaced) (isQueued : later ∈ world.log.queued)
      (after : old.id < later.op.id) (target : old.kind ∈ later.request.targets)
      (kept : Kept world later.op.id) : Kept world old.id

theorem kept_of_books (world : World) (books : Books world.store.ops world.log)
    (queued : Queued) (isQueued : queued ∈ world.log.queued) : Kept world queued.op.id := by
  -- Each replacement has a higher id, and ids are bounded by the table's counter.
  induction gap : world.store.ops.seq - queued.op.id using Nat.strong_induction_on
    generalizing queued with
  | h gap induction =>
  obtain inTable | accepted | ⟨⟨old, new⟩, isEntry, same⟩ := books.kept queued isQueued
  · exact Kept.inTable _ inTable
  · exact Kept.accepted _ accepted
  · obtain ⟨less, later, isLater, sameLater, target⟩ := books.later _ isEntry
    dsimp only at same less sameLater target
    have bounded := books.known later isLater
    have kept := induction (world.store.ops.seq - later.op.id) (by omega) later isLater rfl
    rw [← same]
    exact Kept.replaced old later (by rwa [sameLater]) isLater (by omega) target kept

theorem write_is_queued (world : World) (request : Write) (opened : world.store.isOpen = true) :
    ∃ queued ∈ (world.queueWrite request .none).1.log.queued,
      queued.op.id = (world.queueWrite request .none).2 ∧ queued.op.kind = request.kind := by
  obtain ⟨new, isLogged, newId, _, carried⟩ := write_logged world request opened
  exact ⟨⟨new, request⟩, isLogged, newId, request.kind_of_carried new carried⟩

/-- In every world of a run one pass replays at a time, an op goes out after every earlier one
of its kind is settled, no queued mutation is lost, and every pass ends. -/
theorem outbox_in_order_without_loss (store : OfflineStore) (actions : List Action)
    (world : World) (ran : run World.step (World.launch store) actions = some world) :
    (∀ (i j : Nat) (first second : Pass), world.passes[i]? = some first → world.passes[j]? = some second →
      first.stage.running = true → second.stage.running = true → i = j) ∧
    (∀ pass ∈ world.passes, ∀ op sweep, pass.stage = .replaying op sweep →
      ∀ queued ∈ world.log.queued, queued.op.id < op.id → queued.op.kind = op.kind →
        Settled world.store.ops world.log queued.op.id) ∧
    (∀ queued ∈ world.log.queued, Kept world queued.op.id) ∧
    (world.store.isOpen = true → ∀ request,
      ∃ queued ∈ (world.queueWrite request .none).1.log.queued,
        queued.op.id = (world.queueWrite request .none).2 ∧ queued.op.kind = request.kind) ∧
    ∀ (id : Nat) (pass : Pass), world.passes[id]? = some pass →
      (pass.stage ≠ .finished → ∃ j ≤ id, ∀ answer, (world.step (.advance j answer)).isSome) ∧
      ∀ later last, (∀ action ∈ later, action ≠ .kill) →
        run World.step world later = some last →
          later.countP (·.advances id) ≤ work world.store.ops pass.ceiling pass.stage := by
  have chained := chained_run store actions world ran
  have ordered := ordered_run store actions world ran
  have bounded := run_preserves World.step bounded_step actions (bounded_launch store) ran
  refine ⟨?_, ?_, ?_, ?_, ?_⟩
  · exact running_unique world chained
  · intro pass isPass op sweep sent queued isQueued less sameKind
    exact sent_in_order world ordered pass op isPass sweep sent queued isQueued less sameKind
  · exact kept_of_books world ordered.1.books
  · exact fun opened request => write_is_queued world request opened
  · intro id pass found
    constructor
    · intro unfinished
      obtain ⟨j, below, other, foundOther, allowed⟩ :=
        never_stuck world chained id pass found unfinished
      refine ⟨j, below, fun answer => ?_⟩
      simp [World.step, foundOther, allowed]
    · intro later last alive ranLater
      exact pass_steps_bounded later world last bounded alive ranLater id pass found

def positionsDuringDrain : List Action :=
  let position : Write :=
    .whole "progress:b:epub".toList "/api/progress".toList .post none true []
  [.write position .none, .bound 0, .arrive 0, .advance 0 .offline, .advance 0 .offline,
    .advance 0 .offline, .record position .none, .advance 0 .response, .advance 0 .offline]

theorem outbox_in_order_without_loss_positions :
    ∃ world, run World.step (World.launch ⟨true, Ops.empty⟩) positionsDuringDrain = some world ∧
      world.log.queued.map (·.op.id) = [1, 2] ∧ Kept world 1 ∧ Kept world 2 := by
  obtain ⟨world, ran⟩ := Option.isSome_iff_exists.mp (show (run World.step
    (World.launch ⟨true, Ops.empty⟩) positionsDuringDrain).isSome = true by decide +kernel)
  have ids : (run World.step (World.launch ⟨true, Ops.empty⟩) positionsDuringDrain).map
      (fun world => world.log.queued.map (·.op.id)) = some [1, 2] := by decide +kernel
  rw [ran, Option.map_some, Option.some.injEq] at ids
  have kept := (outbox_in_order_without_loss _ positionsDuringDrain world ran).2.2.1
  refine ⟨world, ran, ids, ?_, ?_⟩
  · have member : 1 ∈ world.log.queued.map (·.op.id) := by simp [ids]
    obtain ⟨queued, isQueued, same⟩ := List.mem_map.mp member
    exact same ▸ kept queued isQueued
  · have member : 2 ∈ world.log.queued.map (·.op.id) := by simp [ids]
    obtain ⟨queued, isQueued, same⟩ := List.mem_map.mp member
    exact same ▸ kept queued isQueued

end Omnibus.Outbox
