import Omnibus.ReviewReplica.Device

/-!
# Nothing is taken from an empty queue

Every op that a pass has still to send has a row at or above it: its own, or that of a write it was
folded into. With no rows left no request is out, and whoever waits for a pass is still there when
the last row goes.
-/

namespace Omnibus.ReviewReplica

open Omnibus.Library.Strings
open Omnibus.Outbox

/-- The stages of a pass whose requests the server accepts or never gets. -/
def plain : Stage → Bool
  | .rejected _ _ _ => false
  | .failing _ _ _ _ => false
  | .attempted _ _ _ => false
  | .parking _ _ _ => false
  | _ => true

def unsent : Stage → List PendingOp
  | .visiting sweep => sweep.rest
  | .replaying op sweep => op :: sweep.rest
  | .accepted _ sweep => sweep.rest
  | _ => []

def reached (reaches : Bool) : Answer := if reaches then .response else .offline

theorem unsent_in_hand (stage : Stage) : unsent stage ⊆ stage.inHand := by
  cases stage with
  | visiting sweep => exact List.Subset.refl _
  | replaying op sweep => exact List.Subset.refl _
  | accepted op sweep => exact List.subset_cons_self _ _
  | _ => exact List.nil_subset _

theorem plain_visit (sweep : Sweep) :
    plain (visit sweep) = true ∧ unsent (visit sweep) ⊆ sweep.rest := by
  rw [visit]
  cases sweep.rest with
  | nil =>
      dsimp only
      split
      · exact ⟨rfl, List.nil_subset _⟩
      · exact ⟨rfl, List.nil_subset _⟩
  | cons op rest =>
      dsimp only
      split
      · exact ⟨rfl, List.subset_cons_self _ _⟩
      · exact ⟨rfl, List.Subset.refl _⟩

/-- What one step of such a pass does to the rows and to what it has still to send. -/
structure PlainStep (ceiling : Nat) (answer : Answer) (store : OfflineStore) (stage : Stage) :
    Prop where
  plain : plain (passStep ceiling answer store stage).2 = true
  rows : (passStep ceiling answer store stage).1 = store.ops ∨ ∃ op sweep,
    stage = .accepted op sweep ∧ passStep ceiling answer store stage =
      (store.ops.deleteOps [op.id], .visiting sweep.retire)
  unsent : ∀ op ∈ unsent (passStep ceiling answer store stage).2,
    op ∈ unsent stage ∨ op ∈ store.ops.rows

theorem plain_step (ceiling : Nat) (reaches : Bool) (store : OfflineStore) (stage : Stage)
    (isPlain : plain stage = true) : PlainStep ceiling (reached reaches) store stage := by
  cases stage with
  | waiting => exact ⟨rfl, Or.inl rfl, by simp [passStep, unsent]⟩
  | drained => exact ⟨rfl, Or.inl rfl, by simp [passStep, unsent]⟩
  | finished => exact ⟨rfl, Or.inl rfl, by simp [passStep, unsent]⟩
  | sweepNext =>
      have listed := fun op => list_ops_mem store ceiling op
      constructor
      · simp only [passStep]
        split <;> rfl
      · exact Or.inl rfl
      · intro op member
        simp only [passStep] at member
        split at member
        · cases member
        · exact Or.inr (listed op member).1
  | visiting sweep =>
      have visited := plain_visit sweep
      exact ⟨visited.1, Or.inl rfl, fun op member => Or.inl (visited.2 member)⟩
  | replaying op sweep =>
      cases reaches with
      | true => exact ⟨rfl, Or.inl rfl, fun other member => Or.inl (List.mem_cons_of_mem _ member)⟩
      | false => exact ⟨rfl, Or.inl rfl, by simp [passStep, received, reached, unsent]⟩
  | accepted op sweep =>
      exact ⟨rfl, Or.inr ⟨op, sweep, rfl, rfl⟩, fun other member => Or.inl member⟩
  | _ => cases isPlain

structure Engine (uuid : Text) (world : World) : Prop where
  landing : Landing uuid (fun _ => .null) world
  plain : ∀ pass ∈ world.passes, plain pass.stage = true
  rowed : ∀ pass ∈ world.passes, ∀ op ∈ unsent pass.stage,
    ∃ row ∈ world.store.ops.rows, op.id ≤ row.id
  joined : ∀ (id : Nat) (pass : Pass), world.passes[id]? = some pass → pass.stage ≠ .finished →
    ∃ (call : Nat) (write : Option (Write × Nat)), world.calls[call]? = some ⟨write, .joined id⟩

theorem call_kept {calls more : List Call} {index : Nat} {call : Call}
    (found : calls[index]? = some call) : (calls ++ more)[index]? = some call := by
  rw [List.getElem?_append_left (List.getElem?_eq_some_iff.mp found).1]
  exact found

theorem placed_before_or_last {Entry : Type} {entries : List Entry} {last entry : Entry}
    {place : Nat} (found : (entries ++ [last])[place]? = some entry) :
    entries[place]? = some entry ∨ place = entries.length := by
  by_cases old : place < entries.length
  · rw [List.getElem?_append_left old] at found
    exact Or.inl found
  · have bound := (List.getElem?_eq_some_iff.mp found).1
    rw [List.length_append, List.length_singleton] at bound
    exact Or.inr (by omega)

/-- What a step of the outbox that queues nothing means for who reads the server. -/
structure Advanced (world next : World) : Prop where
  accepted : next.log.accepted = world.log.accepted ∨ next.store.ops.rows ≠ []
  quiet : world.store.ops.rows = [] →
    next.store.ops.rows = [] ∧ next.log.accepted = world.log.accepted
  going : world.store.ops.rows ≠ [] → next.store.ops.rows = [] →
    ∃ (id : Nat) (pass : Pass), next.passes[id]? = some pass ∧ pass.stage ≠ .finished
  calls : ∀ (call : Nat) (entry : Call), next.calls[call]? = some entry →
    hasReturned entry.stage = false →
    ∃ old, world.calls[call]? = some old ∧ hasReturned old.stage = false

theorem Advanced.of_same {world next : World} (store : next.store = world.store)
    (log : next.log = world.log)
    (calls : ∀ (call : Nat) (entry : Call), next.calls[call]? = some entry →
      hasReturned entry.stage = false →
      ∃ old, world.calls[call]? = some old ∧ hasReturned old.stage = false) :
    Advanced world next := by
  refine ⟨Or.inl (by rw [log]), fun none' => ⟨by rw [store, none'], by rw [log]⟩, ?_, calls⟩
  intro some' none'
  rw [store] at none'
  exact absurd none' some'

theorem calls_set {calls : List Call} {index : Nat} {before after : Call}
    (found : calls[index]? = some before) (was : hasReturned before.stage = false) (call : Nat)
    (entry : Call) (member : (calls.set index after)[call]? = some entry)
    (going : hasReturned entry.stage = false) :
    ∃ old, calls[call]? = some old ∧ hasReturned old.stage = false := by
  rw [List.getElem?_set] at member
  split at member
  · rename_i same
    exact ⟨before, same ▸ found, was⟩
  · exact ⟨entry, member, going⟩

theorem joined_kept {calls : List Call} {index : Nat} {before after : Call}
    (found : calls[index]? = some before) (other : ∀ id, before.stage ≠ .joined id) (id : Nat)
    (joins : ∃ (call : Nat) (write : Option (Write × Nat)), calls[call]? = some ⟨write, .joined id⟩) :
    ∃ (call : Nat) (write : Option (Write × Nat)),
      (calls.set index after)[call]? = some ⟨write, .joined id⟩ := by
  obtain ⟨call, write, here⟩ := joins
  refine ⟨call, write, ?_⟩
  rw [List.getElem?_set]
  split
  · rename_i same
    rw [← same, found, Option.some.injEq] at here
    rw [here] at other
    exact absurd rfl (other id)
  · exact here

namespace Engine

variable {uuid : Text} {world next : World}

theorem queue (engine : Engine uuid world) : ReviewQueue uuid world.store.ops.rows :=
  engine.landing.2.2.2.queue

theorem blocked_iff (engine : Engine uuid world) :
    isBlocked uuid world.store.ops = true ↔ world.store.ops.rows ≠ [] := by
  have kinds (row : PendingOp) (member : row ∈ world.store.ops.rows) :
      (row.pending && touches uuid row.kind) = true := by
    have pending := all_pending uuid world.store.ops.rows engine.queue row member
    rw [pending, Bool.true_and, touches, Bool.or_eq_true, decide_eq_true_eq, decide_eq_true_eq]
    obtain ⟨legacy, rows, isLegacy⟩ | reviews := engine.queue
    · rw [rows, List.mem_singleton] at member
      exact Or.inr (member ▸ isLegacy.1)
    · exact Or.inl (reviews row member).1
  rw [isBlocked, List.any_eq_true]
  constructor
  · rintro ⟨row, member, -⟩
    exact List.ne_nil_of_mem member
  · intro some'
    obtain ⟨row, member⟩ := List.exists_mem_of_ne_nil _ some'
    exact ⟨row, member, kinds row member⟩

theorem write (engine : Engine uuid world) (request : Write) (isReview : IsReviewWrite uuid request)
    (stepped : world.step (.write request .none) = some next) :
    Engine uuid next ∧ next.store.ops.rows ≠ [] ∧ next.log.accepted = world.log.accepted ∧
      next.calls = world.calls ++
        [⟨some (request, (world.queueWrite request .none).2), .called⟩] := by
  have landing := landing_step uuid _ world (.write request .none) next engine.landing
    ⟨isReview, rfl⟩ stepped
  obtain ⟨folds, -, -⟩ := queue_write_review uuid world request engine.landing.2.2.2.opened isReview
    engine.queue
  obtain rfl := Option.some.inj stepped
  obtain ⟨kept, new, rows, newId, -, -⟩ := folds.rows
  have newRow : new ∈ (world.queueWrite request .none).1.store.ops.rows := by simp [rows]
  refine ⟨⟨landing, engine.plain, ?_, ?_⟩, List.ne_nil_of_mem newRow, rfl, rfl⟩
  · intro pass isPass op member
    have inHand := unsent_in_hand pass.stage member
    have below := (engine.landing.2.2.2.hands pass isPass).below op inHand
    have bounded := engine.landing.2.2.1.ceilings pass isPass
    exact ⟨new, newRow, by omega⟩
  · intro id pass found going
    obtain ⟨call, asked, joins⟩ := engine.joined id pass found going
    exact ⟨call, asked, call_kept joins⟩

theorem drain (engine : Engine uuid world) (stepped : world.step .drain = some next) :
    Engine uuid next ∧ next.store = world.store ∧ next.log = world.log ∧
      next.calls = world.calls ++ [⟨none, .called⟩] := by
  have landing := landing_step uuid _ world .drain next engine.landing trivial stepped
  obtain rfl := Option.some.inj stepped
  refine ⟨⟨landing, engine.plain, engine.rowed, ?_⟩, rfl, rfl, rfl⟩
  intro id pass found going
  obtain ⟨call, asked, joins⟩ := engine.joined id pass found going
  exact ⟨call, asked, call_kept joins⟩

theorem bound (engine : Engine uuid world) (index : Nat)
    (stepped : world.step (.bound index) = some next) : Engine uuid next ∧ Advanced world next := by
  have landing := landing_step uuid _ world (.bound index) next engine.landing trivial stepped
  simp only [World.step] at stepped
  split at stepped
  · rename_i write found
    obtain rfl := Option.some.inj stepped
    constructor
    · refine ⟨landing, engine.plain, engine.rowed, fun id pass place going => ?_⟩
      exact joined_kept found (by simp) id (engine.joined id pass place going)
    · exact Advanced.of_same rfl rfl fun call entry => calls_set found rfl call entry
  · cases stepped

theorem finish (engine : Engine uuid world) (index : Nat) (queryFails : Bool)
    (stepped : world.step (.resume index queryFails) = some next) :
    Engine uuid next ∧ Advanced world next := by
  have landing := landing_step uuid _ world (.resume index queryFails) next engine.landing trivial
    stepped
  simp only [World.step] at stepped
  split at stepped
  · rename_i write ended found
    split at stepped
    · rename_i finished
      obtain rfl := Option.some.inj stepped
      constructor
      · refine ⟨landing, engine.plain, engine.rowed, fun id pass place going => ?_⟩
        obtain ⟨call, asked, joins⟩ := engine.joined id pass place going
        refine ⟨call, asked, ?_⟩
        rw [List.getElem?_set]
        split
        · rename_i same
          rw [← same, found, Option.some.injEq, Call.mk.injEq, CallStage.joined.injEq] at joins
          obtain ⟨other, place', ended'⟩ := (pass_finished_iff world ended).mp finished
          rw [joins.2] at place'
          obtain rfl := Option.some.inj (place.symm.trans place')
          exact absurd ended' going
        · exact joins
      · exact Advanced.of_same rfl rfl fun call entry => calls_set found rfl call entry
    · cases stepped
  · cases stepped

theorem arrive (engine : Engine uuid world) (index : Nat)
    (stepped : world.step (.arrive index) = some next) :
    Engine uuid next ∧ Advanced world next := by
  have landing := landing_step uuid _ world (.arrive index) next engine.landing trivial stepped
  simp only [World.step] at stepped
  split at stepped
  · rename_i write ceiling found
    obtain rfl := Option.some.inj stepped
    have within := (List.getElem?_eq_some_iff.mp found).1
    have calls (call : Nat) (entry : Call) :=
      @calls_set _ _ _ ⟨write, .joined (world.joinOrStart ceiling).2⟩ found rfl call entry
    obtain ⟨same, -⟩ | started := world.join_or_start_cases ceiling
    · constructor
      · refine ⟨landing, ?_, ?_, ?_⟩
        · simp only [same]
          exact engine.plain
        · simp only [same]
          exact engine.rowed
        · simp only [same]
          intro id pass place going
          exact joined_kept found (by simp) id (engine.joined id pass place going)
      · exact Advanced.of_same (by simp [same]) (by simp [same]) calls
    · have chosen : (world.joinOrStart ceiling).2 = world.passes.length := by
        have lengths := congrArg (fun world => world.passes.length) started
        unfold World.joinOrStart at lengths ⊢
        split
        · split
          · rename_i slot reaches
            simp [slot, reaches] at lengths
          · rfl
        · rfl
      constructor
      · refine ⟨landing, ?_, ?_, ?_⟩
        · simp only [started]
          intro pass member
          rcases List.mem_append.mp member with old | new
          · exact engine.plain pass old
          · rw [List.mem_singleton.mp new]
            rfl
        · simp only [started]
          intro pass member op waits
          rcases List.mem_append.mp member with old | new
          · exact engine.rowed pass old op waits
          · rw [List.mem_singleton.mp new] at waits
            cases waits
        · simp only [started, chosen]
          intro id pass place going
          rcases placed_before_or_last place with old | last
          · exact joined_kept found (by simp) id (engine.joined id pass old going)
          · refine ⟨index, write, ?_⟩
            rw [last, List.getElem?_set_self within]
      · exact Advanced.of_same (by simp [started]) (by simp [started]) calls
  · cases stepped

section Advance

variable {id : Nat} {pass : Pass} (reaches : Bool)

theorem answered_rows (engine : Engine uuid world) (isPass : pass ∈ world.passes)
    (answered : World.taken pass.stage (reached reaches) ≠ []) :
    world.store.ops.rows ≠ [] ∧
      (world.advance id pass (reached reaches)).store.ops = world.store.ops := by
  cases stage : pass.stage with
  | replaying op sweep =>
      obtain ⟨row, member, -⟩ := engine.rowed pass isPass op (by
        rw [stage]
        exact List.mem_cons_self)
      refine ⟨List.ne_nil_of_mem member, ?_⟩
      rw [World.advance, stage]
      rfl
  | _ => simp [stage, World.taken] at answered

theorem advanced_rowed (engine : Engine uuid world) (found : world.passes[id]? = some pass)
    (plainStep : PlainStep pass.ceiling (reached reaches) world.store pass.stage)
    (other : Pass) (member : other ∈ (world.advance id pass (reached reaches)).passes)
    (op : PendingOp) (waits : op ∈ unsent other.stage) :
    ∃ row ∈ (passStep pass.ceiling (reached reaches) world.store pass.stage).1.rows,
      op.id ≤ row.id := by
  have isPass := List.mem_of_getElem? found
  have among := mem_advance_passes world id pass _ found member
  rcases plainStep.rows with same | ⟨taken, sweep, accepted, deleted⟩
  · rw [same]
    rcases among with rfl | ⟨_, _, place⟩
    · rcases plainStep.unsent op waits with waited | row
      · exact engine.rowed pass isPass op waited
      · exact ⟨op, row, Nat.le_refl _⟩
    · exact engine.rowed other (List.mem_of_getElem? place) op waits
  · rcases among with rfl | ⟨index, differs, place⟩
    · rw [deleted] at waits
      have rest : op ∈ sweep.rest := waits
      obtain ⟨row, isRow, above⟩ := engine.rowed pass isPass op (by
        rw [accepted]
        exact rest)
      have sorted := (engine.landing.1.2 pass isPass).sorted
      rw [accepted] at sorted
      have later := (List.pairwise_cons.mp sorted).1 op rest
      refine ⟨row, ?_, above⟩
      rw [deleted]
      apply List.mem_filter.mpr
      refine ⟨isRow, ?_⟩
      have apart : row.id ≠ taken.id := by omega
      simp [apart]
    · have idle := not_running_beside world engine.landing.2.1 found differs place op
        (unsent_in_hand other.stage waits)
      rw [accepted] at idle
      cases idle

theorem advanced_joined (engine : Engine uuid world) (found : world.passes[id]? = some pass)
    (goes : pass.stage ≠ .finished) (index : Nat) (other : Pass)
    (place : (world.advance id pass (reached reaches)).passes[index]? = some other)
    (going : other.stage ≠ .finished) :
    ∃ (call : Nat) (write : Option (Write × Nat)),
      world.calls[call]? = some ⟨write, .joined index⟩ := by
  rw [advance_passes world id pass _ found] at place
  split at place
  · rename_i same
    rw [same]
    exact engine.joined id pass found goes
  · exact engine.joined index other place going

theorem advance_quiet (engine : Engine uuid world) (found : world.passes[id]? = some pass)
    (plainStep : PlainStep pass.ceiling (reached reaches) world.store pass.stage) :
    Advanced world (world.advance id pass (reached reaches)) := by
  have answered := @answered_rows _ _ id pass reaches engine (List.mem_of_getElem? found)
  constructor
  · by_cases none' : World.taken pass.stage (reached reaches) = []
    · left
      simp [World.advance, none']
    · right
      rw [(answered none').2]
      exact (answered none').1
  · intro empty
    have none' : World.taken pass.stage (reached reaches) = [] := by
      by_contra some'
      exact (answered some').1 empty
    constructor
    · change (passStep pass.ceiling (reached reaches) world.store pass.stage).1.rows = []
      rcases plainStep.rows with same | ⟨taken, sweep, -, deleted⟩
      · rw [same, empty]
      · rw [deleted]
        simp [Ops.deleteOps, Ops.deleteWhere, empty]
    · simp [World.advance, none']
  · intro some' empty
    rcases plainStep.rows with same | ⟨taken, sweep, -, deleted⟩
    · change (passStep pass.ceiling (reached reaches) world.store pass.stage).1.rows = [] at empty
      rw [same] at empty
      exact absurd empty some'
    · refine ⟨id, { pass with stage := .visiting sweep.retire }, ?_, by simp⟩
      rw [advance_passes world id pass _ found, if_pos rfl, deleted]
  · intro call entry place going
    exact ⟨entry, place, going⟩

end Advance

theorem advance (engine : Engine uuid world) (id : Nat) (reaches : Bool)
    (stepped : world.step (.advance id (reached reaches)) = some next) :
    Engine uuid next ∧ Advanced world next := by
  have landing (allowed : ReviewStep uuid world (.advance id (reached reaches))) :=
    landing_step uuid _ world _ next engine.landing allowed stepped
  simp only [World.step] at stepped
  split at stepped
  · rename_i pass found
    split at stepped
    · rename_i may
      have isPass : pass ∈ world.passes := List.mem_of_getElem? found
      have isPlain := engine.plain pass isPass
      have aside : pass.stage.holdsAside = false := by
        cases stage : pass.stage with
        | rejected => rw [stage] at isPlain; cases isPlain
        | parking => rw [stage] at isPlain; cases isPlain
        | _ => rfl
      have landed := landing (by
        intro other member
        obtain rfl := Option.some.inj (found.symm.trans member)
        exact aside)
      have goes : pass.stage ≠ .finished := by
        intro ended
        simp [World.mayAdvance, ended] at may
      obtain rfl := Option.some.inj stepped
      have plainStep := plain_step pass.ceiling reaches world.store pass.stage isPlain
      refine ⟨⟨landed, ?_, engine.advanced_rowed reaches found plainStep,
        engine.advanced_joined reaches found goes⟩, engine.advance_quiet reaches found plainStep⟩
      intro other member
      rcases mem_advance_passes world id pass _ found member with rfl | ⟨_, _, place⟩
      · exact plainStep.plain
      · exact engine.plain other (List.mem_of_getElem? place)
    · cases stepped
  · cases stepped

end Engine

end Omnibus.ReviewReplica
