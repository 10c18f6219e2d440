import Omnibus.Outbox.Ledger

/-!
# One pass at a time, each kind in order

A pass waits for the pass before it, so only one replays. Its sweep holds a window of the
table in id order: an op of the window is sent once every earlier op of its kind is settled,
because an op that is let go is either settled or stalls its kind.
-/

namespace Omnibus.Outbox

open Omnibus.Library.Strings
open Omnibus.Library.Runs

def Stage.running (stage : Stage) : Bool := stage ≠ .waiting && stage ≠ .finished

theorem in_hand_of_not_running (stage : Stage) (idle : stage.running = false) :
    stage.inHand = [] := by
  cases stage <;> first | rfl | simp [Stage.running] at idle

structure Chained (world : World) : Prop where
  slot : ∀ ceiling id, world.current = some (ceiling, id) → id + 1 = world.passes.length
  free : world.current = none → ∀ i < world.passes.length, world.passFinished i = true
  link : ∀ i pass k, world.passes[i]? = some pass → pass.previous = some k → k + 1 = i
  first : ∀ i pass, world.passes[i]? = some pass → pass.previous = none →
    ∀ j < i, world.passFinished j = true
  turn : ∀ i pass, world.passes[i]? = some pass → pass.stage ≠ .waiting →
    ∀ j < i, world.passFinished j = true

theorem pass_finished_iff (world : World) (i : Nat) :
    world.passFinished i = true ↔
      ∃ pass, world.passes[i]? = some pass ∧ pass.stage = .finished := by
  unfold World.passFinished
  cases world.passes[i]? <;> simp

theorem chained_launch (store : OfflineStore) : Chained (World.launch store) := by
  constructor <;> simp [World.launch]

theorem chained_join_or_start (world : World) (ceiling : Nat) (chained : Chained world) :
    Chained (world.joinOrStart ceiling).1 := by
  obtain ⟨same, -⟩ | started := world.join_or_start_cases ceiling
  · rw [same]
    exact chained
  rw [started]
  have still (i : Nat) (finished : world.passFinished i = true) : World.passFinished
      { world with
        passes := world.passes ++ [⟨ceiling, world.current.map (·.2), .waiting⟩]
        current := some (ceiling, world.passes.length) } i = true := by
    rw [pass_finished_iff] at finished ⊢
    obtain ⟨pass, found, done⟩ := finished
    refine ⟨pass, ?_, done⟩
    have inRange := (List.getElem?_eq_some_iff.mp found).1
    dsimp only
    rw [List.getElem?_append_left inRange]
    exact found
  have split (i : Nat) (pass : Pass)
      (found : (world.passes ++ [⟨ceiling, world.current.map (·.2), .waiting⟩])[i]? = some pass) :
      world.passes[i]? = some pass ∨
        i = world.passes.length ∧ pass = ⟨ceiling, world.current.map (·.2), .waiting⟩ := by
    rw [List.getElem?_append] at found
    split at found
    · exact Or.inl found
    · apply Or.inr
      cases offset : i - world.passes.length with
      | zero =>
          rw [offset, List.getElem?_cons_zero, Option.some.injEq] at found
          exact ⟨by omega, found.symm⟩
      | succ n => simp [offset] at found
  constructor
  · intro bound id found
    simp only [Option.some.injEq, Prod.mk.injEq] at found
    simp [← found.2]
  · intro empty
    cases empty
  · intro i pass k found previous
    obtain old | ⟨atEnd, rfl⟩ := split i pass found
    · exact chained.link i pass k old previous
    · cases current : world.current with
      | none => simp [current] at previous
      | some slot =>
          obtain ⟨bound, id⟩ := slot
          simp only [current, Option.map_some, Option.some.injEq] at previous
          rw [atEnd, ← previous]
          exact chained.slot bound id current
  · intro i pass found previous j less
    obtain old | ⟨atEnd, rfl⟩ := split i pass found
    · exact still j (chained.first i pass old previous j less)
    · obtain current | ⟨slot, current⟩ := Option.eq_none_or_eq_some world.current
      · exact still j (chained.free current j (atEnd ▸ less))
      · simp [current] at previous
  · intro i pass found going j less
    obtain old | ⟨-, rfl⟩ := split i pass found
    · exact still j (chained.turn i pass old going j less)
    · exact absurd rfl going

theorem advance_passes (world : World) (id : Nat) (pass : Pass) (answer : Answer)
    (found : world.passes[id]? = some pass) (i : Nat) :
    (world.advance id pass answer).passes[i]? =
      if i = id then
        some { pass with stage := (passStep pass.ceiling answer world.store pass.stage).2 }
      else world.passes[i]? := by
  have inRange := (List.getElem?_eq_some_iff.mp found).1
  simp only [World.advance, List.getElem?_set]
  by_cases same : i = id
  · subst same
    simp [inRange]
  · simp [same, Ne.symm same]

theorem mem_advance_passes (world : World) (id : Nat) (pass : Pass) (answer : Answer)
    (found : world.passes[id]? = some pass) {other : Pass}
    (member : other ∈ (world.advance id pass answer).passes) :
    other = { pass with stage := (passStep pass.ceiling answer world.store pass.stage).2 } ∨
      ∃ j ≠ id, world.passes[j]? = some other := by
  obtain ⟨j, place⟩ := List.getElem?_of_mem member
  rw [advance_passes world id pass answer found] at place
  split at place
  · exact Or.inl (Option.some.inj place).symm
  · rename_i differs
    exact Or.inr ⟨j, differs, place⟩

theorem chained_advance (world : World) (id : Nat) (pass : Pass) (answer : Answer)
    (chained : Chained world) (found : world.passes[id]? = some pass)
    (allowed : world.mayAdvance pass = true) : Chained (world.advance id pass answer) := by
  have notFinished : pass.stage ≠ .finished := by
    intro finished
    simp [World.mayAdvance, finished] at allowed
  have inRange := (List.getElem?_eq_some_iff.mp found).1
  -- A pass that may go on has every pass before it behind it.
  have ready (j : Nat) (less : j < id) : world.passFinished j = true := by
    by_cases waiting : pass.stage = .waiting
    · cases previous : pass.previous with
      | none => exact chained.first id pass found previous j less
      | some k =>
          have done : world.passFinished k = true := by
            simpa [World.mayAdvance, waiting, previous] using allowed
          have next := chained.link id pass k found previous
          obtain ⟨before, foundBefore, isFinished⟩ := (pass_finished_iff world k).mp done
          by_cases last : j = k
          · exact last ▸ done
          · exact chained.turn k before foundBefore (by simp [isFinished]) j (by omega)
    · exact chained.turn id pass found waiting j less
  have still (i : Nat) (finished : world.passFinished i = true) :
      (world.advance id pass answer).passFinished i = true := by
    rw [pass_finished_iff] at finished ⊢
    obtain ⟨other, foundOther, done⟩ := finished
    have differs : i ≠ id := by
      intro equal
      subst equal
      rw [found, Option.some.injEq] at foundOther
      exact notFinished (foundOther ▸ done)
    refine ⟨other, ?_, done⟩
    rw [advance_passes world id pass answer found, if_neg differs]
    exact foundOther
  have sameLength : (world.advance id pass answer).passes.length = world.passes.length := by
    simp [World.advance]
  constructor
  · intro ceiling slot current
    rw [sameLength]
    apply chained.slot ceiling slot
    simp only [World.advance, World.releaseCurrent] at current
    split at current
    · split at current
      · cases current
      · exact current
    · exact current
  · intro empty i less
    rw [sameLength] at less
    simp only [World.advance, World.releaseCurrent] at empty
    split at empty
    · rename_i drained
      split at empty
      · rename_i holds
        obtain ⟨slot, current, same⟩ := Option.map_eq_some_iff.mp holds
        have last := chained.slot slot.1 slot.2 current
        by_cases here : i = id
        · rw [pass_finished_iff, advance_passes world id pass answer found, if_pos here]
          exact ⟨_, rfl, by simp [drained, passStep]⟩
        · exact still i (ready i (by omega))
      · exact still i (chained.free empty i less)
    · exact still i (chained.free empty i less)
  · intro i other k foundOther previous
    rw [advance_passes world id pass answer found] at foundOther
    split at foundOther
    · rename_i here
      simp only [Option.some.injEq] at foundOther
      subst foundOther
      exact here ▸ chained.link id pass k found previous
    · exact chained.link i other k foundOther previous
  · intro i other foundOther previous j less
    apply still
    rw [advance_passes world id pass answer found] at foundOther
    split at foundOther
    · rename_i here
      exact ready j (here ▸ less)
    · exact chained.first i other foundOther previous j less
  · intro i other foundOther going j less
    apply still
    rw [advance_passes world id pass answer found] at foundOther
    split at foundOther
    · rename_i here
      exact ready j (here ▸ less)
    · exact chained.turn i other foundOther going j less

theorem chained_step (world : World) (action : Action) (next : World) (chained : Chained world)
    (stepped : world.step action = some next) : Chained next := by
  obtain ⟨request, fault, calls, -, rfl⟩ | ⟨calls, -, rfl⟩ |
    ⟨_, _, ceiling, calls, -, -, rfl⟩ |
    ⟨id, answer, pass, -, found, allowed, rfl⟩ | ⟨-, rfl⟩ := world.step_cases action next stepped
  · exact ⟨chained.slot, chained.free, chained.link, chained.first, chained.turn⟩
  · exact ⟨chained.slot, chained.free, chained.link, chained.first, chained.turn⟩
  · have joined := chained_join_or_start world ceiling chained
    exact ⟨joined.slot, joined.free, joined.link, joined.first, joined.turn⟩
  · exact chained_advance world id pass answer chained found allowed
  · constructor <;> simp

theorem chained_run (store : OfflineStore) (actions : List Action) (last : World)
    (ran : run World.step (World.launch store) actions = some last) : Chained last :=
  run_preserves World.step chained_step actions (chained_launch store) ran

theorem running_unique (world : World) (chained : Chained world) (i j : Nat)
    (first second : Pass) (foundFirst : world.passes[i]? = some first)
    (foundSecond : world.passes[j]? = some second) (runsFirst : first.stage.running = true)
    (runsSecond : second.stage.running = true) : i = j := by
  have oneWay (i j : Nat) (first second : Pass) (foundFirst : world.passes[i]? = some first)
      (foundSecond : world.passes[j]? = some second) (runsFirst : first.stage.running = true)
      (runsSecond : second.stage.running = true) : ¬i < j := by
    intro less
    have waited : second.stage ≠ .waiting := by
      intro same
      simp [same, Stage.running] at runsSecond
    obtain ⟨other, found, finished⟩ :=
      (pass_finished_iff world i).mp (chained.turn j second foundSecond waited i less)
    rw [foundFirst, Option.some.injEq] at found
    simp [found, finished, Stage.running] at runsFirst
  have notLess := oneWay i j first second foundFirst foundSecond runsFirst runsSecond
  have notGreater := oneWay j i second first foundSecond foundFirst runsSecond runsFirst
  omega

theorem not_running_beside (world : World) (chained : Chained world) {i j : Nat}
    {pass other : Pass} (found : world.passes[i]? = some pass) (differs : j ≠ i)
    (foundOther : world.passes[j]? = some other) (op : PendingOp)
    (inHand : op ∈ other.stage.inHand) : pass.stage.running = false := by
  have runs : other.stage.running = true := by
    by_contra idle
    rw [in_hand_of_not_running other.stage (by simpa using idle)] at inHand
    cases inHand
  by_contra going
  exact differs (running_unique world chained j i other pass foundOther found runs
    (by simpa using going))

theorem never_stuck (world : World) (chained : Chained world) (i : Nat) (pass : Pass)
    (found : world.passes[i]? = some pass) (unfinished : pass.stage ≠ .finished) :
    ∃ j ≤ i, ∃ other, world.passes[j]? = some other ∧ world.mayAdvance other = true := by
  induction i using Nat.strong_induction_on generalizing pass with
  | h i induction =>
  by_cases waiting : pass.stage = .waiting
  · cases previous : pass.previous with
    | none => exact ⟨i, le_rfl, pass, found, by simp [World.mayAdvance, waiting, previous]⟩
    | some k =>
        have next := chained.link i pass k found previous
        cases done : world.passFinished k with
        | true => exact ⟨i, le_rfl, pass, found,
            by simp [World.mayAdvance, waiting, previous, done]⟩
        | false =>
            have inRange := (List.getElem?_eq_some_iff.mp found).1
            have foundBefore : world.passes[k]? = some world.passes[k] :=
              List.getElem?_eq_getElem (by omega)
            have open' : world.passes[k].stage ≠ .finished := by
              intro same
              rw [(pass_finished_iff world k).mpr ⟨_, foundBefore, same⟩] at done
              cases done
            obtain ⟨j, below, other, foundOther, may⟩ :=
              induction k (by omega) _ foundBefore open'
            exact ⟨j, by omega, other, foundOther, may⟩
  · refine ⟨i, le_rfl, pass, found, ?_⟩
    unfold World.mayAdvance
    split <;> simp_all

/-- An op needs no request of its own any more. -/
def Settled (ops : Ops) (log : Log) (id : Nat) : Prop :=
  log.wasAccepted id ∨ log.wasReplaced id ∨ ∃ row ∈ ops.rows, row.id = id ∧ row.pending = false

theorem settled_marked (before after : Ops) (log : Log) (id : Nat) (marked : before.Marked after)
    (settled : Settled before log id) : Settled after log id := by
  obtain accepted | replaced | ⟨row, member, same, held⟩ := settled
  · exact Or.inl accepted
  · exact Or.inr (Or.inl replaced)
  · obtain ⟨-, update, rows, keeps⟩ := marked
    refine Or.inr (Or.inr ⟨update row, ?_, ?_, (keeps row).2 held⟩)
    · rw [rows]
      exact List.mem_map_of_mem member
    · exact (PendingOp.request_parts (keeps row).1).1.trans same

theorem settled_accept (ops : Ops) (log : Log) (taken : List PendingOp) (id : Nat)
    (settled : Settled ops log id) :
    Settled ops { log with accepted := log.accepted ++ taken } id := by
  apply settled.imp_left
  intro ⟨op, member, same⟩
  exact ⟨op, List.mem_append_left _ member, same⟩

theorem settled_retire (ops : Ops) (log : Log) (gone id : Nat) (accepted : log.wasAccepted gone)
    (settled : Settled ops log id) : Settled (ops.deleteOps [gone]) log id := by
  by_cases same : id = gone
  · exact Or.inl (same ▸ accepted)
  apply settled.imp_right
  apply Or.imp_right
  intro ⟨row, member, sameId, held⟩
  refine ⟨row, ?_, sameId, held⟩
  simp only [Ops.deleteOps, Ops.deleteWhere, List.mem_filter]
  exact ⟨member, by simp [sameId, same]⟩

theorem settled_queue_write (world : World) (request : Write) (fault : Fault) (id : Nat)
    (settled : Settled world.store.ops world.log id) :
    Settled (world.queueWrite request fault).1.store.ops
      (world.queueWrite request fault).1.log id := by
  obtain ⟨sameStore, sameLog, -⟩ | inserted :=
    queue_write_cases world request fault
  · rw [sameStore, sameLog]
    exact settled
  obtain accepted | ⟨entry, isEntry, same⟩ | ⟨row, member, same, held⟩ := settled
  · exact Or.inl accepted
  · exact Or.inr (Or.inl ⟨entry, List.mem_append_left _ isEntry, same⟩)
  · cases still : (world.queueWrite request fault).1.store.ops.hasRow row.id with
    | false =>
        apply Or.inr
        apply Or.inl
        refine ⟨(row, (world.queueWrite request fault).2), ?_, same⟩
        apply List.mem_append_right
        rw [List.mem_map]
        refine ⟨row, ?_, rfl⟩
        simp only [World.missing, List.mem_filter]
        exact ⟨member, by simpa [World.queueWrite] using still⟩
    | true =>
        apply Or.inr
        apply Or.inr
        obtain ⟨other, isOther, sameId⟩ := (Ops.has_row_iff _ _).mp still
        obtain ⟨fresh, -, -, -, left, new, ⟨-, keep, leftRows, -⟩, rows, newId, -, -⟩ := inserted
        have bounded := (world.store.ops.given row member).2
        have inTable := isOther
        rw [rows, List.mem_append, List.mem_singleton, leftRows] at isOther
        obtain kept | isNew := isOther
        · have sameRow := world.store.ops.row_unique other row (List.mem_of_mem_filter kept)
            member sameId
          exact ⟨row, sameRow ▸ inTable, same, held⟩
        · subst isNew
          omega

theorem settled_pass_step (ceiling : Nat) (answer : Answer) (store : OfflineStore)
    (stage : Stage) (log : Log) (id : Nat) (settled : Settled store.ops log id)
    (accepting : ∀ op sweep, stage = .accepted op sweep → log.wasAccepted op.id) :
    Settled (passStep ceiling answer store stage).1
      { log with accepted := log.accepted ++ World.taken stage answer } id := by
  apply settled_accept
  cases stage with
  | waiting => exact settled
  | sweepNext => exact settled
  | visiting => exact settled
  | replaying => exact settled
  | accepted op sweep => exact settled_retire _ _ _ _ (accepting op sweep rfl) settled
  | rejected => exact settled_marked _ _ _ _ (store.ops.marked_note_failure _ _) settled
  | failing => exact settled_marked _ _ _ _ (store.ops.marked_fail_referencing _ _ _) settled
  | attempted => exact settled_marked _ _ _ _ (store.ops.marked_note_attempt _) settled
  | parking => exact settled_marked _ _ _ _ (store.ops.marked_note_failure _ _) settled
  | drained => exact settled
  | finished => exact settled

/-- Once its failure is noted an op is settled, whether its row is still there or not. -/
theorem settled_note_failure (ops : Ops) (log : Log) (queued : Queued) (message : Text)
    (books : Books ops log) (member : queued ∈ log.queued) :
    Settled (ops.noteOpFailure queued.op.id message) log queued.op.id := by
  obtain inTable | accepted | replaced := books.kept queued member
  · obtain ⟨row, isRow, same⟩ := (ops.has_row_iff _).mp inTable
    apply Or.inr
    apply Or.inr
    refine ⟨_, List.mem_map_of_mem isRow, ?_, ?_⟩
    · simp [same]
    · simp [same, PendingOp.pending]
  · exact Or.inl accepted
  · exact Or.inr (Or.inl replaced)

def Stage.stalled (stage : Stage) : List Text := (stage.sweep?.map (·.stalled)).getD []

/-- What a step of a pass lets go of: an op that was accepted, one whose failure is now noted,
or one of a stalled kind. -/
inductive LetsGo (stage next : Stage) (op : PendingOp) : Prop where
  | accepted (sweep : Sweep) (from' : stage = .accepted op sweep)
  | rejected (detail : Text) (sweep : Sweep) (from' : stage = .rejected op detail sweep)
  | failing (token detail : Text) (sweep : Sweep) (from' : stage = .failing op token detail sweep)
  | stalled (isStalled : op.kind ∈ next.stalled)

theorem kept_but_head {stage next : Stage} {op : PendingOp}
    (head : stage.inHand = op :: next.inHand) (goes : LetsGo stage next op) :
    ∀ other ∈ stage.inHand, other ∈ next.inHand ∨ LetsGo stage next other := by
  intro other member
  rw [head] at member
  obtain rfl | later := List.mem_cons.mp member
  · exact Or.inr goes
  · exact Or.inl later

theorem pass_step_keeps (ceiling : Nat) (answer : Answer) (store : OfflineStore) (stage : Stage)
    (notNext : stage ≠ .sweepNext) :
    (passStep ceiling answer store stage).2.inHand = [] ∨
      (stage.stalled ⊆ (passStep ceiling answer store stage).2.stalled ∧
        ∀ op ∈ stage.inHand, op ∈ (passStep ceiling answer store stage).2.inHand ∨
          LetsGo stage (passStep ceiling answer store stage).2 op) := by
  cases stage with
  | waiting => exact Or.inl rfl
  | sweepNext => exact absurd rfl notNext
  | drained => exact Or.inl rfl
  | finished => exact Or.inl rfl
  | visiting sweep =>
      obtain ⟨ops, rest, retired, stalled⟩ := sweep
      cases rest with
      | nil =>
          apply Or.inl
          simp only [passStep, visit]
          split <;> rfl
      | cons op rest =>
          apply Or.inr
          simp only [passStep, visit]
          cases isStalled : stalled.contains op.kind with
          | false => exact ⟨List.Subset.refl _, fun other member => Or.inl member⟩
          | true =>
              refine ⟨List.Subset.refl _, kept_but_head rfl (.stalled ?_)⟩
              change op.kind ∈ stalled
              simpa using isStalled
  | replaying op sweep =>
      simp only [passStep]
      obtain next | next | ⟨_, next⟩ | ⟨_, next⟩ := received_cases op sweep answer
      · rw [next]
        exact Or.inr ⟨List.Subset.refl _, fun other member => Or.inl member⟩
      · rw [next]
        exact Or.inl rfl
      · rw [next]
        exact Or.inr ⟨List.Subset.refl _, fun other member => Or.inl member⟩
      · rw [next]
        exact Or.inr ⟨List.Subset.refl _, fun other member => Or.inl member⟩
  | accepted op sweep =>
      apply Or.inr
      exact ⟨List.Subset.refl _, kept_but_head rfl (.accepted sweep rfl)⟩
  | rejected op detail sweep =>
      apply Or.inr
      simp only [passStep]
      split
      · exact ⟨List.Subset.refl _, fun other member => Or.inl member⟩
      · exact ⟨List.Subset.refl _, kept_but_head rfl (.rejected detail sweep rfl)⟩
  | failing op token detail sweep =>
      apply Or.inr
      exact ⟨List.Subset.refl _, kept_but_head rfl (.failing token detail sweep rfl)⟩
  | attempted op message sweep =>
      apply Or.inr
      simp only [passStep]
      split
      · exact ⟨List.Subset.refl _, fun other member => Or.inl member⟩
      · exact ⟨List.subset_cons_self _ _, kept_but_head rfl (.stalled List.mem_cons_self)⟩
  | parking op message sweep =>
      apply Or.inr
      exact ⟨List.subset_cons_self _ _, kept_but_head rfl (.stalled List.mem_cons_self)⟩

/-- Before each op a pass has in hand, the queued ops of its kind are settled, stalled or in
hand too. -/
structure InOrder (ops : Ops) (log : Log) (stage : Stage) : Prop where
  sorted : stage.inHand.Pairwise fun first second => first.id < second.id
  earlier : ∀ op ∈ stage.inHand, ∀ queued ∈ log.queued, queued.op.id < op.id →
    queued.op.kind = op.kind → Settled ops log queued.op.id ∨ op.kind ∈ stage.stalled ∨
      ∃ other ∈ stage.inHand, other.id = queued.op.id
  noted : ∀ op token detail sweep, stage = .failing op token detail sweep →
    Settled ops log op.id
  sending : ∀ op sweep, stage = .replaying op sweep → op.kind ∉ sweep.stalled

theorem in_order_of_empty (ops : Ops) (log : Log) (stage : Stage) (empty : stage.inHand = []) :
    InOrder ops log stage := by
  refine ⟨?_, ?_, ?_, ?_⟩
  · rw [empty]
    exact List.Pairwise.nil
  · rw [empty]
    simp
  · intro op token detail sweep equal
    subst equal
    cases empty
  · intro op sweep equal
    subst equal
    cases empty

theorem sending_of_pass_step (ceiling : Nat) (answer : Answer) (store : OfflineStore)
    (stage : Stage) (op : PendingOp) (sweep : Sweep)
    (stepped : (passStep ceiling answer store stage).2 = .replaying op sweep) :
    op.kind ∉ sweep.stalled := by
  cases stage with
  | visiting before =>
      simp only [passStep, visit] at stepped
      split at stepped
      · split at stepped <;> cases stepped
      · split at stepped
        · cases stepped
        · rename_i notStalled
          simp only [Stage.replaying.injEq] at stepped
          rw [← stepped.1, ← stepped.2]
          simpa using notStalled
  | replaying other before =>
      simp only [passStep] at stepped
      obtain next | next | ⟨_, next⟩ | ⟨_, next⟩ := received_cases other before answer <;>
        rw [next] at stepped <;> cases stepped
  | waiting => cases stepped
  | sweepNext => simp only [passStep] at stepped; split at stepped <;> cases stepped
  | rejected => simp only [passStep] at stepped; split at stepped <;> cases stepped
  | attempted => simp only [passStep] at stepped; split at stepped <;> cases stepped
  | accepted => cases stepped
  | failing => cases stepped
  | parking => cases stepped
  | drained => cases stepped
  | finished => cases stepped

theorem list_ops_earlier (store : OfflineStore) (ceiling : Nat) (op row : PendingOp)
    (listed : op ∈ store.listOps ceiling) (isRow : row ∈ store.ops.rows)
    (pending : row.pending = true) (less : row.id < op.id) : row ∈ store.listOps ceiling := by
  have bounded := (list_ops_mem store ceiling op listed).2.2
  unfold OfflineStore.listOps at listed ⊢
  split at listed
  · rename_i opened
    rw [if_pos opened]
    have candidate : row ∈ store.ops.pendingUpTo ceiling := by
      simp only [Ops.pendingUpTo, List.mem_filter, pending, Bool.true_and, decide_eq_true_eq]
      exact ⟨isRow, by omega⟩
    have ordered : (store.ops.pendingUpTo ceiling).Pairwise fun a b => a.id < b.id :=
      store.ops.ordered.filter _
    rw [← List.take_append_drop Ops.listLimit (store.ops.pendingUpTo ceiling)] at ordered candidate
    obtain taken | dropped := List.mem_append.mp candidate
    · exact taken
    · have after := (List.pairwise_append.mp ordered).2.2 op listed row dropped
      omega
  · cases listed

theorem list_ops_sorted (store : OfflineStore) (ceiling : Nat) :
    (store.listOps ceiling).Pairwise fun first second => first.id < second.id := by
  unfold OfflineStore.listOps
  split
  · exact (store.ops.ordered.filter _).sublist (List.take_sublist _ _)
  · exact List.Pairwise.nil

theorem in_order_sweep_next (ceiling : Nat) (answer : Answer) (store : OfflineStore) (log : Log)
    (books : Books store.ops log) :
    InOrder store.ops log (passStep ceiling answer store .sweepNext).2 := by
  simp only [passStep]
  split
  · exact in_order_of_empty _ _ _ rfl
  refine ⟨list_ops_sorted store ceiling, ?_, ?_, ?_⟩
  · intro op listed queued isQueued less _
    obtain inTable | accepted | replaced := books.kept queued isQueued
    · obtain ⟨row, isRow, same⟩ := (store.ops.has_row_iff _).mp inTable
      cases pending : row.pending with
      | false => exact Or.inl (Or.inr (Or.inr ⟨row, isRow, same, pending⟩))
      | true =>
          exact Or.inr (Or.inr ⟨row,
            list_ops_earlier store ceiling op row listed isRow pending (by omega), same⟩)
    · exact Or.inl (Or.inl accepted)
    · exact Or.inl (Or.inr (Or.inl replaced))
  · intro op token detail sweep same
    cases same
  · intro op sweep same
    cases same

theorem failing_of_pass_step (ceiling : Nat) (answer : Answer) (store : OfflineStore)
    (stage : Stage) (op : PendingOp) (token detail : Text) (sweep : Sweep)
    (stepped : (passStep ceiling answer store stage).2 = .failing op token detail sweep) :
    clientToken op = some token ∧ ∃ before, stage = .rejected op detail before := by
  cases stage with
  | rejected other message before =>
      simp only [passStep] at stepped
      split at stepped
      · rename_i isToken
        simp only [Stage.failing.injEq] at stepped
        obtain ⟨rfl, rfl, rfl, -⟩ := stepped
        exact ⟨isToken, before, rfl⟩
      · cases stepped
  | waiting => cases stepped
  | sweepNext => simp only [passStep] at stepped; split at stepped <;> cases stepped
  | visiting before =>
      simp only [passStep, visit] at stepped
      split at stepped <;> split at stepped <;> cases stepped
  | replaying other before =>
      simp only [passStep] at stepped
      obtain next | next | ⟨_, next⟩ | ⟨_, next⟩ := received_cases other before answer <;>
        rw [next] at stepped <;> cases stepped
  | accepted => cases stepped
  | failing => cases stepped
  | attempted => simp only [passStep] at stepped; split at stepped <;> cases stepped
  | parking => cases stepped
  | drained => cases stepped
  | finished => cases stepped

theorem in_order_pass_step (ceiling : Nat) (answer : Answer) (store : OfflineStore)
    (stage : Stage) (log : Log) (books : Books store.ops log)
    (hands : ∀ op ∈ stage.inHand, ∃ queued ∈ log.queued, queued.op.request = op.request)
    (accepting : ∀ op sweep, stage = .accepted op sweep → log.wasAccepted op.id)
    (inOrder : InOrder store.ops log stage) :
    InOrder (passStep ceiling answer store stage).1
      { log with accepted := log.accepted ++ World.taken stage answer }
      (passStep ceiling answer store stage).2 := by
  by_cases next : stage = .sweepNext
  · subst next
    exact in_order_sweep_next ceiling answer store _ (books.accept _)
  have later (id : Nat) (settled : Settled store.ops log id) :=
    settled_pass_step ceiling answer store stage log id settled accepting
  obtain empty | ⟨sameStalls, keeps⟩ := pass_step_keeps ceiling answer store stage next
  · exact in_order_of_empty _ _ _ empty
  obtain fewer | ⟨isNext, -⟩ := in_hand_pass_step ceiling answer store stage
  swap
  · exact absurd isNext next
  have settledOf (op : PendingOp) (inHand : op ∈ stage.inHand)
      (lets : LetsGo stage (passStep ceiling answer store stage).2 op) :
      Settled (passStep ceiling answer store stage).1
          { log with accepted := log.accepted ++ World.taken stage answer } op.id ∨
        op.kind ∈ (passStep ceiling answer store stage).2.stalled := by
    cases lets with
    | accepted sweep from' => exact Or.inl (later _ (Or.inl (accepting op sweep from')))
    | rejected detail sweep from' =>
        apply Or.inl
        obtain ⟨queued, isQueued, same⟩ := hands op inHand
        have sameId := (PendingOp.request_parts same).1
        subst from'
        have noted := settled_note_failure store.ops log queued detail books isQueued
        rw [sameId] at noted
        exact settled_accept _ _ _ _ noted
    | failing token detail sweep from' =>
        exact Or.inl (later _ (inOrder.noted op token detail sweep from'))
    | stalled isStalled => exact Or.inr isStalled
  refine ⟨inOrder.sorted.sublist fewer, ?_, ?_,
    fun op sweep sent => sending_of_pass_step ceiling answer store stage op sweep sent⟩
  · intro op member queued isQueued less sameKind
    obtain settled | stalled | ⟨other, isOther, sameId⟩ :=
      inOrder.earlier op (fewer.subset member) queued isQueued less sameKind
    · exact Or.inl (later _ settled)
    · exact Or.inr (Or.inl (sameStalls stalled))
    · obtain still | lets := keeps other isOther
      · exact Or.inr (Or.inr ⟨other, still, sameId⟩)
      · obtain settled | stalled := settledOf other isOther lets
        · exact Or.inl (sameId ▸ settled)
        · obtain ⟨entry, isEntry, sameRequest⟩ := hands other isOther
          obtain ⟨entryId, entryKind, -⟩ := PendingOp.request_parts sameRequest
          have sameEntry := books.unique entry isEntry queued isQueued (entryId.trans sameId)
          subst sameEntry
          exact Or.inr (Or.inl (by rwa [← sameKind, entryKind]))
  · intro op token detail sweep isFailing
    obtain ⟨-, before, rfl⟩ :=
      failing_of_pass_step ceiling answer store stage op token detail sweep isFailing
    obtain ⟨queued, isQueued, same⟩ := hands op (by simp [Stage.inHand, Stage.op?])
    have noted := settled_note_failure store.ops log queued detail books isQueued
    rw [(PendingOp.request_parts same).1] at noted
    exact settled_accept _ _ _ _ noted

def Ordered (world : World) : Prop :=
  Ledger world ∧ ∀ pass ∈ world.passes, InOrder world.store.ops world.log pass.stage

/-- What another step leaves in order: it settles no less, and queues only later ops. -/
theorem in_order_elsewhere (before after : World) (stage : Stage)
    (settles : ∀ id, Settled before.store.ops before.log id →
      Settled after.store.ops after.log id)
    (queues : ∀ queued ∈ after.log.queued, queued ∈ before.log.queued ∨
      before.store.ops.seq < queued.op.id)
    (hands : ∀ op ∈ stage.inHand, op.id ≤ before.store.ops.seq)
    (inOrder : InOrder before.store.ops before.log stage) :
    InOrder after.store.ops after.log stage := by
  refine ⟨inOrder.sorted, ?_, ?_, inOrder.sending⟩
  · intro op member queued isQueued less sameKind
    obtain old | new := queues queued isQueued
    · exact (inOrder.earlier op member queued old less sameKind).imp_left (settles _)
    · have bounded := hands op member
      omega
  · intro op token detail sweep same
    exact settles _ (inOrder.noted op token detail sweep same)

theorem hands_given (world : World) (ledger : Ledger world) (pass : Pass)
    (isPass : pass ∈ world.passes) (op : PendingOp) (member : op ∈ pass.stage.inHand) :
    op.id ≤ world.store.ops.seq := by
  obtain ⟨queued, isQueued, same⟩ := ledger.hands pass isPass op member
  rw [← (PendingOp.request_parts same).1]
  exact ledger.books.known queued isQueued

theorem queue_write_queues (world : World) (request : Write) (fault : Fault)
    (queued : Queued)
    (isQueued : queued ∈ (world.queueWrite request fault).1.log.queued) :
    queued ∈ world.log.queued ∨ world.store.ops.seq < queued.op.id := by
  obtain ⟨-, sameLog, -⟩ | inserted := queue_write_cases world request fault
  · exact Or.inl (sameLog ▸ isQueued)
  · obtain old | new := List.mem_append.mp isQueued
    · exact Or.inl old
    · obtain ⟨row, isRow, rfl⟩ := List.mem_map.mp new
      have sameId : row.id = (world.queueWrite request fault).2 :=
        of_decide_eq_true (List.mem_filter.mp isRow).2
      have fresh := inserted.fresh
      apply Or.inr
      change world.store.ops.seq < row.id
      omega

theorem ordered_step (world : World) (action : Action) (next : World) (ordered : Ordered world)
    (stepped : world.step action = some next) : Ordered next := by
  obtain ⟨ledger, inOrder⟩ := ordered
  refine ⟨ledger_step world action next ledger stepped, ?_⟩
  obtain ⟨request, fault, calls, -, rfl⟩ | ⟨calls, -, rfl⟩ |
    ⟨_, _, ceiling, calls, -, -, rfl⟩ |
    ⟨id, answer, pass, -, found, -, rfl⟩ | ⟨-, rfl⟩ := world.step_cases action next stepped
  · intro pass isPass
    exact in_order_elsewhere world (world.queueWrite request fault).1 pass.stage
      (settled_queue_write world request fault)
      (queue_write_queues world request fault) (hands_given world ledger pass isPass)
      (inOrder pass isPass)
  · exact inOrder
  · obtain ⟨same, -⟩ | started := world.join_or_start_cases ceiling
    · rw [same]
      exact inOrder
    · rw [started]
      intro pass isPass
      rw [List.mem_append, List.mem_singleton] at isPass
      obtain old | rfl := isPass
      · exact inOrder pass old
      · exact in_order_of_empty _ _ _ rfl
  · have isPass : pass ∈ world.passes := List.mem_of_getElem? found
    intro other member
    obtain rfl | old := mem_set_cases _ _ _ _ member
    · exact in_order_pass_step pass.ceiling answer world.store pass.stage world.log ledger.books
        (ledger.hands pass isPass) (ledger.accepting pass isPass) (inOrder pass isPass)
    · exact in_order_elsewhere world (world.advance id pass answer) other.stage
        (fun settledId settled => settled_pass_step pass.ceiling answer world.store pass.stage
          world.log settledId settled (ledger.accepting pass isPass))
        (fun queued isQueued => Or.inl isQueued) (hands_given world ledger other old)
        (inOrder other old)
  · simp

theorem ordered_run (store : OfflineStore) (actions : List Action) (last : World)
    (ran : run World.step (World.launch store) actions = some last) : Ordered last := by
  apply run_preserves World.step ordered_step actions _ ran
  exact ⟨ledger_launch store, by simp [World.launch]⟩

theorem sent_in_order (world : World) (ordered : Ordered world) (pass : Pass) (op : PendingOp)
    (isPass : pass ∈ world.passes) (sweep : Sweep) (sent : pass.stage = .replaying op sweep)
    (queued : Queued)
    (isQueued : queued ∈ world.log.queued) (less : queued.op.id < op.id)
    (sameKind : queued.op.kind = op.kind) : Settled world.store.ops world.log queued.op.id := by
  have inOrder := ordered.2 pass isPass
  rw [sent] at inOrder
  have head : op ∈ (Stage.replaying op sweep).inHand := by simp [Stage.inHand, Stage.op?]
  obtain settled | stalled | ⟨other, isOther, sameId⟩ :=
    inOrder.earlier op head queued isQueued less sameKind
  · exact settled
  · exact absurd stalled (inOrder.sending op sweep rfl)
  · obtain rfl | later := List.mem_cons.mp isOther
    · omega
    · have above := (List.pairwise_cons.mp inOrder.sorted).1 other later
      omega

end Omnibus.Outbox
