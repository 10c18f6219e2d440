import Mathlib.Data.List.Infix
import Omnibus.Outbox.Order

/-!
# Ops behind a create that was held aside

A create the server refuses takes the ops that name its client id with it, in a statement of
its own. The law that nothing naming it is sent afterwards holds along the runs in which no
such op is out of that statement's reach: still in the window of the sweep, behind a create
that ran out of attempts, queued after the hold, or left over by a kill between the two
statements.
-/

namespace Omnibus.Outbox

open Omnibus.Library.Strings
open Omnibus.Library.Runs

/-- The op stands behind the create and its path contains the create's client id. -/
def dependsOn (create op : PendingOp) : Bool :=
  (clientId create).any fun token =>
    decide (token ≠ []) && decide (create.id < op.id) && Ops.names op.path token

theorem depends_on_iff (create op : PendingOp) :
    dependsOn create op = true ↔ ∃ token, clientId create = some token ∧ token ≠ [] ∧
      create.id < op.id ∧ Ops.names op.path token = true := by
  unfold dependsOn
  cases clientId create <;> simp [and_assoc]

theorem depends_on_congr (create create' op op' : PendingOp)
    (sameCreate : create.request = create'.request) (sameOp : op.request = op'.request) :
    dependsOn create op = dependsOn create' op' := by
  obtain ⟨createId, -, -, -, createBody⟩ := PendingOp.request_parts sameCreate
  obtain ⟨opId, -, opPath, -, -⟩ := PendingOp.request_parts sameOp
  simp [dependsOn, clientId, createBody, createId, opId, opPath]

theorem names_iff (path token : Text) : Ops.names path token = true ↔ token <:+: path := by
  rw [List.infix_iff_prefix_suffix]
  simp [Ops.names, and_comm]

theorem names_token (create op : PendingOp) (token : Text) (kept : clientToken create = some token)
    (depends : dependsOn create op = true) :
    create.id < op.id ∧ Ops.names op.path token = true ∧ token ≠ [] := by
  obtain ⟨text, isText, -, less, named⟩ := (depends_on_iff create op).mp depends
  rw [clientToken, isText, Option.bind_some, nilIfBlank] at kept
  split at kept
  · cases kept
  · rename_i solid
    rw [Option.some.injEq] at kept
    subst kept
    refine ⟨less, ?_, solid⟩
    rw [names_iff] at named ⊢
    have front : trim text <:+: text.dropWhile isWhitespace :=
      (List.rdropWhile_prefix _ _).isInfix
    exact (front.trans (List.dropWhile_suffix _).isInfix).trans named

def Write.path : Write → Text
  | .whole _ path _ _ _ _ => path
  | .fieldPatch _ path _ _ => path

def Stage.isFailing : Stage → Bool
  | .failing _ _ _ _ => true
  | _ => false

/-- The path names no create that is held aside. -/
def NamesNoneHeld (ops : Ops) (path : Text) : Prop :=
  ∀ held ∈ ops.rows, held.pending = false →
    ∀ token ∈ clientId held, token ≠ [] → Ops.names path token = false

/-- No dependant of a create escapes when a pass holds it aside: neither one still in the
sweep's window, nor one no cascade reaches. -/
def StageContained (ops : Ops) : Stage → Prop
  | .rejected op _ sweep =>
      (∀ later ∈ sweep.rest, dependsOn op later = false) ∧
        (clientToken op = none → ∀ row ∈ ops.rows, row.pending = true → dependsOn op row = false)
  | .parking op _ sweep =>
      (∀ later ∈ sweep.rest, dependsOn op later = false) ∧
        ∀ row ∈ ops.rows, row.pending = true → dependsOn op row = false
  | .failing op token _ sweep =>
      ∀ row ∈ ops.rows, row.pending = true → op.id < row.id → Ops.names row.path token = true →
        (∀ later ∈ sweep.rest, dependsOn row later = false) ∧
          ∀ other ∈ ops.rows, other.pending = true → dependsOn row other = true →
            Ops.names other.path token = true
  | _ => True

/-- The step lets no dependant of a held create escape. -/
def Contained (world : World) : Action → Prop
  | .write request _ => NamesNoneHeld world.store.ops request.path
  | .record request _ => NamesNoneHeld world.store.ops request.path
  | .kill => ∀ pass ∈ world.passes, pass.stage.isFailing = false
  | .advance id _ => ∀ pass ∈ world.passes[id]?, StageContained world.store.ops pass.stage
  | _ => True

instance (ops : Ops) (path : Text) : Decidable (NamesNoneHeld ops path) := by
  unfold NamesNoneHeld
  infer_instance

instance (ops : Ops) (stage : Stage) : Decidable (StageContained ops stage) := by
  cases stage <;> unfold StageContained <;> infer_instance

instance (world : World) (action : Action) : Decidable (Contained world action) := by
  cases action <;> unfold Contained <;> infer_instance

/-- Nothing naming a held create is in hand, and what still waits behind one is about to be
held aside with it. -/
structure Withheld (world : World) : Prop where
  hands : ∀ pass ∈ world.passes, ∀ op ∈ pass.stage.inHand, ∀ held ∈ world.store.ops.rows,
    held.pending = false → dependsOn held op = false
  rows : ∀ held ∈ world.store.ops.rows, held.pending = false →
    ∀ row ∈ world.store.ops.rows, row.pending = true → dependsOn held row = true →
      ∃ pass ∈ world.passes, ∃ op token detail sweep,
        pass.stage = .failing op token detail sweep ∧ op.id = held.id ∧
          Ops.names row.path token = true
  tokens : ∀ pass ∈ world.passes, ∀ op token detail sweep,
    pass.stage = .failing op token detail sweep → clientToken op = some token

theorem only_failing (world : World) (chained : Chained world) (id : Nat) (pass other : Pass)
    (found : world.passes[id]? = some pass) (runs : pass.stage.running = true)
    (isOther : other ∈ world.passes) (op : PendingOp) (token detail : Text) (sweep : Sweep)
    (failing : other.stage = .failing op token detail sweep) : other = pass := by
  obtain ⟨j, foundOther⟩ := List.getElem?_of_mem isOther
  have same := running_unique world chained j id other pass foundOther found
    (by simp [failing, Stage.running]) runs
  rw [same, found] at foundOther
  exact (Option.some.inj foundOther).symm

theorem withheld_queue_write (world : World) (request : Write) (fault : Fault)
    (withheld : Withheld world)
    (contained : NamesNoneHeld world.store.ops request.path) :
    Withheld (world.queueWrite request fault).1 := by
  obtain ⟨sameStore, -, -⟩ | inserted := queue_write_cases world request fault
  · refine ⟨?_, ?_, withheld.tokens⟩
    · rw [sameStore]
      exact withheld.hands
    · rw [sameStore]
      exact withheld.rows
  obtain ⟨left, new, ⟨-, keep, leftRows, -⟩, rows, -, carried, isPending⟩ := inserted.rows
  have cases' (row : PendingOp)
      (member : row ∈ (world.queueWrite request fault).1.store.ops.rows) :
      row ∈ world.store.ops.rows ∨ row = new := by
    rw [rows, List.mem_append, List.mem_singleton, leftRows] at member
    exact member.imp_left List.mem_of_mem_filter
  have newPending : new.pending = true := by simp [PendingOp.pending, isPending]
  have newPath : new.path = request.path := by
    cases request <;> exact carried.2.1
  have oldHeld (held : PendingOp)
      (member : held ∈ (world.queueWrite request fault).1.store.ops.rows)
      (isHeld : held.pending = false) : held ∈ world.store.ops.rows := by
    obtain old | rfl := cases' held member
    · exact old
    · rw [newPending] at isHeld
      cases isHeld
  refine ⟨?_, ?_, withheld.tokens⟩
  · intro pass isPass op inHand held member isHeld
    exact withheld.hands pass isPass op inHand held (oldHeld held member isHeld) isHeld
  · intro held member isHeld row isRow pending depends
    obtain old | rfl := cases' row isRow
    · exact withheld.rows held (oldHeld held member isHeld) isHeld row old pending depends
    · obtain ⟨token, isToken, solid, -, named⟩ := (depends_on_iff held row).mp depends
      rw [newPath, contained held (oldHeld held member isHeld) isHeld token isToken solid] at named
      cases named

def NewlyHeld (stage : Stage) (old : PendingOp) : Prop :=
  match stage with
  | .rejected op _ _ => old.id = op.id
  | .parking op _ _ => old.id = op.id
  | .failing op token _ _ => op.id < old.id ∧ old.pending = true ∧
      Ops.names old.path token = true
  | _ => False

theorem held_pass_step (ceiling : Nat) (answer : Answer) (store : OfflineStore) (stage : Stage)
    (row : PendingOp) (member : row ∈ (passStep ceiling answer store stage).1.rows)
    (held : row.pending = false) :
    ∃ old ∈ store.ops.rows, old.request = row.request ∧
      (old.pending = false ∨ NewlyHeld stage old) := by
  have same (inStore : row ∈ store.ops.rows) : ∃ old ∈ store.ops.rows,
      old.request = row.request ∧ (old.pending = false ∨ NewlyHeld stage old) :=
    ⟨row, inStore, rfl, Or.inl held⟩
  have noted (id : Nat) (message : Text) (inAfter : row ∈ (store.ops.noteOpFailure id message).rows)
      (newly : ∀ old, old.id = id → NewlyHeld stage old) : ∃ old ∈ store.ops.rows,
        old.request = row.request ∧ (old.pending = false ∨ NewlyHeld stage old) := by
    obtain ⟨old, isOld, rfl⟩ := List.mem_map.mp inAfter
    by_cases taken : old.id = id
    · refine ⟨old, isOld, ?_, Or.inr (newly old taken)⟩
      simp [taken, PendingOp.request]
    · simp only [taken, decide_false, Bool.false_eq_true, if_false] at held ⊢
      exact ⟨old, isOld, rfl, Or.inl held⟩
  cases stage with
  | waiting => exact same member
  | sweepNext => exact same member
  | visiting => exact same member
  | replaying => exact same member
  | accepted => exact same (List.mem_of_mem_filter member)
  | drained => exact same member
  | finished => exact same member
  | rejected op detail sweep => exact noted op.id detail member fun old isOp => isOp
  | parking op message sweep => exact noted op.id message member fun old isOp => isOp
  | attempted op message sweep =>
      obtain ⟨old, isOld, rfl⟩ := List.mem_map.mp member
      refine ⟨old, isOld, ?_, Or.inl ?_⟩
      · split <;> rfl
      · split at held <;> exact held
  | failing op token detail sweep =>
      simp only [passStep, Ops.failOpsReferencing] at member
      split at member
      · exact same member
      · obtain ⟨old, isOld, rfl⟩ := List.mem_map.mp member
        by_cases taken : (decide (op.id < old.id) && old.pending &&
            Ops.names old.path token) = true
        · refine ⟨old, isOld, ?_, Or.inr ?_⟩
          · simp [taken, PendingOp.request]
          · simpa [NewlyHeld, and_assoc] using taken
        · simp only [taken, Bool.false_eq_true, if_false] at held ⊢
          exact ⟨old, isOld, rfl, Or.inl held⟩

theorem client_token_solid (op : PendingOp) (token : Text) (isToken : clientToken op = some token) :
    token ≠ [] := by
  obtain ⟨text, -, kept⟩ := Option.bind_eq_some_iff.mp isToken
  unfold nilIfBlank at kept
  split at kept
  · cases kept
  · rename_i solid
    rwa [← Option.some.inj kept]

theorem not_named_after_cascade (ops : Ops) (token : Text) (id : Nat) (message : Text)
    (solid : token ≠ []) (row : PendingOp)
    (member : row ∈ (ops.failOpsReferencing token id message).rows) (pending : row.pending = true)
    (behind : id < row.id) : Ops.names row.path token = false := by
  rw [Ops.failOpsReferencing, if_neg solid] at member
  obtain ⟨old, -, rfl⟩ := List.mem_map.mp member
  by_cases taken : (decide (id < old.id) && old.pending && Ops.names old.path token) = true
  · simp only [taken, if_true] at pending
    cases pending
  · simp only [taken, Bool.false_eq_true, if_false] at pending behind ⊢
    simpa [behind, pending] using taken

theorem newly_held_runs (stage : Stage) (old : PendingOp) (newly : NewlyHeld stage old) :
    stage.running = true := by
  cases stage <;> first | rfl | exact absurd newly (by simp [NewlyHeld])

theorem newly_held_hands (world : World) (ledger : Ledger world) (id : Nat) (pass : Pass)
    (answer : Answer) (found : world.passes[id]? = some pass)
    (contained : Contained world (.advance id answer)) (old op : PendingOp)
    (isOld : old ∈ world.store.ops.rows) (newly : NewlyHeld pass.stage old)
    (inHand : op ∈ (passStep pass.ceiling answer world.store pass.stage).2.inHand) :
    dependsOn old op = false := by
  have isPass : pass ∈ world.passes := List.mem_of_getElem? found
  have rule := contained pass found
  have ofCreate (create : PendingOp) (rest : List PendingOp) (same : old.id = create.id)
      (head : create ∈ pass.stage.inHand) (among : op ∈ create :: rest)
      (apart : ∀ later ∈ rest, dependsOn create later = false) : dependsOn old op = false := by
    rw [depends_on_congr old create op op
      (request_of_hand world ledger pass isPass create old head isOld same) rfl]
    obtain rfl | later := List.mem_cons.mp among
    · by_contra depends
      obtain ⟨-, -, -, less, -⟩ := (depends_on_iff op op).mp (by simpa using depends)
      omega
    · exact apart op later
  cases isStage : pass.stage with
  | rejected create detail sweep =>
      rw [isStage] at rule newly inHand
      apply ofCreate create sweep.rest newly _ _ rule.1
      · simp [isStage, Stage.inHand, Stage.op?]
      · obtain fewer | ⟨isNext, -⟩ := in_hand_pass_step pass.ceiling answer world.store
          (.rejected create detail sweep)
        · exact fewer.subset inHand
        · cases isNext
  | parking create message sweep =>
      rw [isStage] at rule newly inHand
      apply ofCreate create sweep.rest newly _ (List.mem_cons_of_mem _ inHand) rule.1
      simp [isStage, Stage.inHand, Stage.op?]
  | failing create token detail sweep =>
      rw [isStage] at rule newly inHand
      exact (rule old isOld newly.2.1 newly.1 newly.2.2).1 op inHand
  | _ => simp [isStage, NewlyHeld] at newly

theorem withheld_hands_advance (world : World) (id : Nat) (pass : Pass) (answer : Answer)
    (ledger : Ledger world) (chained : Chained world) (withheld : Withheld world)
    (found : world.passes[id]? = some pass) (contained : Contained world (.advance id answer))
    (other : Pass) (member : other ∈ (world.advance id pass answer).passes) (op : PendingOp)
    (inHand : op ∈ other.stage.inHand) (held : PendingOp)
    (isHeldRow : held ∈ (world.advance id pass answer).store.ops.rows)
    (isHeld : held.pending = false) : dependsOn held op = false := by
  have isPass : pass ∈ world.passes := List.mem_of_getElem? found
  obtain ⟨old, isOld, sameHeld, wasHeld⟩ := held_pass_step pass.ceiling answer world.store
    pass.stage held isHeldRow isHeld
  rw [← depends_on_congr old held op op sameHeld rfl]
  obtain rfl | ⟨j, differs, foundOther⟩ := mem_advance_passes world id pass answer found member
  · obtain wasHeld | newly := wasHeld
    · obtain fewer | ⟨isNext, listed⟩ := in_hand_pass_step pass.ceiling answer world.store
        pass.stage
      · exact withheld.hands pass isPass op (fewer.subset inHand) old isOld wasHeld
      · by_contra depends
        obtain ⟨isRow, pending, -⟩ := list_ops_mem _ _ _ (listed.subset inHand)
        obtain ⟨failing, isFailing, create, token, detail, sweep, stage, -, -⟩ :=
          withheld.rows old isOld wasHeld op isRow pending (by simpa using depends)
        have same := only_failing world chained id pass failing found
          (by simp [isNext, Stage.running]) isFailing create token detail sweep stage
        rw [same, isNext] at stage
        cases stage
    · exact newly_held_hands world ledger id pass answer found contained old op isOld newly
        inHand
  · have isOther : other ∈ world.passes := List.mem_of_getElem? foundOther
    obtain wasHeld | newly := wasHeld
    · exact withheld.hands other isOther op inHand old isOld wasHeld
    · have idle := not_running_beside world chained found differs foundOther op inHand
      rw [newly_held_runs pass.stage old newly] at idle
      cases idle

/-- What depends on a row held back is not pending, or its cascade is still to come. -/
theorem withheld_rows_advance (world : World) (id : Nat) (pass : Pass) (answer : Answer)
    (ledger : Ledger world) (withheld : Withheld world)
    (found : world.passes[id]? = some pass) (contained : Contained world (.advance id answer))
    (held : PendingOp) (isHeldRow : held ∈ (world.advance id pass answer).store.ops.rows)
    (isHeld : held.pending = false) (row : PendingOp)
    (isRow : row ∈ (world.advance id pass answer).store.ops.rows) (pending : row.pending = true)
    (depends : dependsOn held row = true) :
    ∃ failing ∈ (world.advance id pass answer).passes, ∃ op token detail sweep,
      failing.stage = .failing op token detail sweep ∧ op.id = held.id ∧
        Ops.names row.path token = true := by
  have isPass : pass ∈ world.passes := List.mem_of_getElem? found
  have moved : ({ pass with stage := (passStep pass.ceiling answer world.store pass.stage).2 } : Pass) ∈
      (world.advance id pass answer).passes :=
    List.mem_of_getElem? ((advance_passes world id pass answer found id).trans (if_pos rfl))
  obtain ⟨old, isOld, sameHeld, wasHeld⟩ := held_pass_step pass.ceiling answer world.store
    pass.stage held isHeldRow isHeld
  obtain ⟨before, isBefore, sameRow, stillPending⟩ := rows_pass_step pass.ceiling answer
    world.store pass.stage row isRow
  have wasPending := stillPending pending
  have dependsBefore : dependsOn old before = true :=
    (depends_on_congr old held before row sameHeld sameRow).trans depends
  obtain ⟨heldId, -⟩ := PendingOp.request_parts sameHeld
  obtain ⟨rowId, -, rowPath, -⟩ := PendingOp.request_parts sameRow
  -- What the cascade of this step reaches is not pending any more.
  have reached (create : PendingOp) (token detail : Text) (sweep : Sweep)
      (stage : pass.stage = .failing create token detail sweep) (behind : create.id < before.id)
      (named : Ops.names before.path token = true) : False := by
    have solid := client_token_solid create token
      (withheld.tokens pass isPass create token detail sweep stage)
    have unnamed := not_named_after_cascade world.store.ops token create.id detail solid row
      (by simpa [World.advance, stage, passStep] using isRow) pending (by omega)
    rw [← rowPath, named] at unnamed
    cases unnamed
  obtain wasHeld | newly := wasHeld
  · obtain ⟨failing, isFailing, create, token, detail, sweep, stage, sameId, named⟩ :=
      withheld.rows old isOld wasHeld before isBefore wasPending dependsBefore
    obtain ⟨-, -, -, less, -⟩ := (depends_on_iff old before).mp dependsBefore
    obtain ⟨j, foundFailing⟩ := List.getElem?_of_mem isFailing
    by_cases here : j = id
    · subst here
      rw [found, Option.some.injEq] at foundFailing
      subst foundFailing
      exact (reached create token detail sweep stage (by omega) named).elim
    · refine ⟨failing, ?_, create, token, detail, sweep, stage, by omega, rowPath ▸ named⟩
      exact List.mem_of_getElem? ((advance_passes world id pass answer found j).trans
        ((if_neg here).trans foundFailing))
  · have rule := contained pass found
    cases isStage : pass.stage with
    | rejected create detail sweep =>
        rw [isStage] at rule newly
        have head : create ∈ pass.stage.inHand := by simp [isStage, Stage.inHand, Stage.op?]
        have sameCreate := request_of_hand world ledger pass isPass create old head isOld newly
        have dependsCreate : dependsOn create before = true :=
          (depends_on_congr old create before before sameCreate rfl).symm.trans dependsBefore
        cases isToken : clientToken create with
        | none =>
            rw [rule.2 isToken before isBefore wasPending] at dependsCreate
            cases dependsCreate
        | some token =>
            obtain ⟨-, named, -⟩ := names_token create before token isToken dependsCreate
            refine ⟨_, moved, create, token, detail, sweep, ?_, ?_, rowPath ▸ named⟩
            · simp [isStage, passStep, isToken]
            · exact newly.symm.trans heldId
    | parking create message sweep =>
        rw [isStage] at rule newly
        have head : create ∈ pass.stage.inHand := by simp [isStage, Stage.inHand, Stage.op?]
        have sameCreate := request_of_hand world ledger pass isPass create old head isOld newly
        rw [depends_on_congr old create before before sameCreate rfl,
          rule.2 before isBefore wasPending] at dependsBefore
        cases dependsBefore
    | failing create token detail sweep =>
        rw [isStage] at rule newly
        have named := (rule old isOld newly.2.1 newly.1 newly.2.2).2 before isBefore wasPending
          dependsBefore
        obtain ⟨-, -, -, less, -⟩ := (depends_on_iff old before).mp dependsBefore
        have behind := newly.1
        exact (reached create token detail sweep isStage (by omega) named).elim
    | _ => simp [isStage, NewlyHeld] at newly

theorem withheld_advance (world : World) (id : Nat) (pass : Pass) (answer : Answer)
    (ledger : Ledger world) (chained : Chained world) (withheld : Withheld world)
    (found : world.passes[id]? = some pass)
    (contained : Contained world (.advance id answer)) :
    Withheld (world.advance id pass answer) := by
  constructor
  · exact withheld_hands_advance world id pass answer ledger chained withheld found contained
  · exact withheld_rows_advance world id pass answer ledger withheld found contained
  · intro other member op token detail sweep stage
    obtain rfl | ⟨j, -, foundOther⟩ := mem_advance_passes world id pass answer found member
    · exact (failing_of_pass_step _ _ _ _ op token detail sweep stage).1
    · exact withheld.tokens other (List.mem_of_getElem? foundOther) op token detail sweep stage

theorem withheld_join_or_start (world : World) (ceiling : Nat) (withheld : Withheld world) :
    Withheld (world.joinOrStart ceiling).1 := by
  obtain ⟨same, -⟩ | started := world.join_or_start_cases ceiling
  · rw [same]
    exact withheld
  · rw [started]
    refine ⟨?_, ?_, ?_⟩
    · intro pass member op inHand
      obtain old | new := List.mem_append.mp member
      · exact withheld.hands pass old op inHand
      · rw [List.mem_singleton.mp new] at inHand
        cases inHand
    · intro held isRow isHeld row member pending depends
      obtain ⟨pass, isPass, rest⟩ := withheld.rows held isRow isHeld row member pending depends
      exact ⟨pass, List.mem_append_left _ isPass, rest⟩
    · intro pass member op token detail sweep stage
      obtain old | new := List.mem_append.mp member
      · exact withheld.tokens pass old op token detail sweep stage
      · rw [List.mem_singleton.mp new] at stage
        cases stage

theorem withheld_step (world : World) (action : Action) (next : World)
    (invariant : Ledger world ∧ Chained world ∧ Withheld world)
    (contained : Contained world action) (stepped : world.step action = some next) :
    Ledger next ∧ Chained next ∧ Withheld next := by
  obtain ⟨ledger, chained, withheld⟩ := invariant
  refine ⟨ledger_step world action next ledger stepped,
    chained_step world action next chained stepped, ?_⟩
  obtain ⟨request, fault, calls, isWrite, rfl⟩ | ⟨calls, -, rfl⟩ |
    ⟨_, _, ceiling, calls, -, -, rfl⟩ | ⟨id, answer, pass, rfl, found, -, rfl⟩ | ⟨rfl, rfl⟩ :=
      world.step_cases action next stepped
  · have queued := withheld_queue_write world request fault withheld (by
      obtain rfl | rfl := isWrite <;> exact contained)
    exact ⟨queued.hands, queued.rows, queued.tokens⟩
  · exact ⟨withheld.hands, withheld.rows, withheld.tokens⟩
  · have joined := withheld_join_or_start world ceiling withheld
    exact ⟨joined.hands, joined.rows, joined.tokens⟩
  · exact withheld_advance world id pass answer ledger chained withheld found contained
  · refine ⟨by simp, ?_, by simp⟩
    intro held isRow isHeld row member pending depends
    obtain ⟨pass, isPass, op, token, detail, sweep, stage, -⟩ :=
      withheld.rows held isRow isHeld row member pending depends
    have notFailing := contained pass isPass
    simp [stage, Stage.isFailing] at notFailing

/-- In a run that lets no dependant escape, no op naming a held create is out, and each one
queued behind it is held aside with it once the cascade is over. -/
theorem held_create_withholds (isOpen : Bool) (actions : List Action) (world : World)
    (meets : Meets World.step Contained (World.launch ⟨isOpen, Ops.empty⟩) actions)
    (ran : run World.step (World.launch ⟨isOpen, Ops.empty⟩) actions = some world)
    (create : PendingOp) (isRow : create ∈ world.store.ops.rows) (held : create.pending = false) :
    (∀ pass ∈ world.passes, ∀ op sweep, pass.stage = .replaying op sweep →
      dependsOn create op = false) ∧
    ((∀ pass ∈ world.passes, ∀ op token detail sweep,
        pass.stage = .failing op token detail sweep → op.id ≠ create.id) →
      ∀ row ∈ world.store.ops.rows, dependsOn create row = true → row.pending = false) := by
  have start : Ledger (World.launch ⟨isOpen, Ops.empty⟩) ∧
      Chained (World.launch ⟨isOpen, Ops.empty⟩) ∧
      Withheld (World.launch ⟨isOpen, Ops.empty⟩) := by
    refine ⟨ledger_launch _, chained_launch _, ?_⟩
    constructor <;> simp [World.launch, Ops.empty]
  obtain ⟨-, -, withheld⟩ := run_keeps World.step withheld_step actions start meets ran
  constructor
  · intro pass isPass op sweep stage
    apply withheld.hands pass isPass op _ create isRow held
    simp [stage, Stage.inHand, Stage.op?]
  · intro past row member depends
    by_contra pending
    obtain ⟨pass, isPass, op, token, detail, sweep, stage, same, -⟩ :=
      withheld.rows create isRow held row member (by simpa using pending) depends
    exact past pass isPass op token detail sweep stage same

/-- A highlight and the note on it, which spells the highlight's client id into its path. -/
def highlightWrite : Write :=
  .whole "highlight".toList "/api/annotations".toList .post
    (some (.object [(clientIdKey, .string "h1".toList)])) false []

def noteWrite : Write :=
  .whole "highlight".toList "/api/annotations/h1".toList .patch none false []

/-- The server refuses the highlight; the note is queued before or after the sweep's read. -/
def refusedHighlight (noteBefore : Bool) : List Action :=
  let note : List Action := [.record noteWrite .none]
  let begun : List Action := [.drain, .bound 0, .arrive 0, .advance 0 .offline,
    .advance 0 .offline, .advance 0 .offline]
  let refused : List Action := [.advance 0 (.http 422 []), .advance 0 .offline,
    .advance 0 .offline, .advance 0 .offline]
  .record highlightWrite .none ::
    if noteBefore then note ++ begun ++ refused else begun ++ note ++ refused

theorem held_create_withholds_note :
    ∃ world, run World.step (World.launch ⟨true, Ops.empty⟩) (refusedHighlight false) =
        some world ∧
      ∃ create ∈ world.store.ops.rows, create.pending = false ∧
        ∀ row ∈ world.store.ops.rows, dependsOn create row = true → row.pending = false := by
  obtain ⟨world, ran⟩ := Option.isSome_iff_exists.mp (show (run World.step
    (World.launch ⟨true, Ops.empty⟩) (refusedHighlight false)).isSome = true by decide +kernel)
  have outcome : (run World.step (World.launch ⟨true, Ops.empty⟩) (refusedHighlight false)).map
      (fun world => ((world.store.ops.rows.map (·.pending)).head?,
        world.passes.map (·.stage))) = some (some false, [.sweepNext]) := by decide +kernel
  rw [ran, Option.map_some, Option.some.injEq, Prod.mk.injEq] at outcome
  obtain ⟨first, stages⟩ := outcome
  rw [List.head?_map, Option.map_eq_some_iff] at first
  obtain ⟨create, isFirst, held⟩ := first
  have isRow := List.mem_of_head? isFirst
  obtain ⟨-, rows⟩ := held_create_withholds true (refusedHighlight false) world
    (by decide +kernel) ran create isRow held
  refine ⟨world, ran, create, isRow, held, rows ?_⟩
  intro pass isPass op token detail sweep stage
  have among : pass.stage ∈ world.passes.map (·.stage) := List.mem_map_of_mem isPass
  rw [stages, stage] at among
  simp at among

/-- With the note already in the window it is sent although the highlight is held aside. -/
theorem note_sent_behind_held_create :
    ¬∀ (isOpen : Bool) (actions : List Action) (world : World),
      run World.step (World.launch ⟨isOpen, Ops.empty⟩) actions = some world →
        ∀ create ∈ world.store.ops.rows, create.pending = false →
          ∀ pass ∈ world.passes, ∀ op sweep, pass.stage = .replaying op sweep →
            dependsOn create op = false := by
  intro claimed
  obtain ⟨world, ran⟩ := Option.isSome_iff_exists.mp (show (run World.step
    (World.launch ⟨true, Ops.empty⟩) (refusedHighlight true)).isSome = true by decide +kernel)
  have outcome : (run World.step (World.launch ⟨true, Ops.empty⟩) (refusedHighlight true)).map
      (fun world => world.store.ops.rows.any fun create => !create.pending &&
        world.passes.any fun pass => pass.stage.op?.any fun op =>
          decide (pass.stage = .replaying op ((pass.stage.sweep?).getD ⟨[], [], 0, []⟩)) &&
            dependsOn create op) = some true := by decide +kernel
  rw [ran, Option.map_some, Option.some.injEq, List.any_eq_true] at outcome
  obtain ⟨create, isRow, isSent⟩ := outcome
  rw [Bool.and_eq_true, Bool.not_eq_true', List.any_eq_true] at isSent
  obtain ⟨held, pass, isPass, isOp⟩ := isSent
  cases busy : pass.stage.op? with
  | none => simp [busy] at isOp
  | some op =>
      simp only [busy, Option.any_some, Bool.and_eq_true, decide_eq_true_eq] at isOp
      rw [claimed true _ world ran create isRow held pass isPass op _ isOp.1] at isOp
      cases isOp.2

end Omnibus.Outbox
