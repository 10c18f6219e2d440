import Omnibus.Outbox.Engine

/-!
# What became of every mutation

Every mutation that made a row is still in the table, was accepted by the server, or made way
for a later write of a kind of its own. Nothing else takes a row away, so this holds in every
world a run reaches.
-/

namespace Omnibus.Outbox

open Omnibus.Library.Strings

namespace Stage

def op? : Stage → Option PendingOp
  | .replaying op _ => some op
  | .accepted op _ => some op
  | .rejected op _ _ => some op
  | .failing op _ _ _ => some op
  | .attempted op _ _ => some op
  | .parking op _ _ => some op
  | _ => none

def sweep? : Stage → Option Sweep
  | .visiting sweep => some sweep
  | .replaying _ sweep => some sweep
  | .accepted _ sweep => some sweep
  | .rejected _ _ sweep => some sweep
  | .failing _ _ _ sweep => some sweep
  | .attempted _ _ sweep => some sweep
  | .parking _ _ sweep => some sweep
  | _ => none

def inHand (stage : Stage) : List PendingOp :=
  stage.op?.toList ++ (stage.sweep?.map (·.rest)).getD []

end Stage

theorem in_hand_visit (sweep : Sweep) : (visit sweep).inHand.Sublist sweep.rest := by
  unfold visit
  cases sweep.rest with
  | nil => dsimp only; split <;> exact List.Sublist.refl _
  | cons op rest =>
      dsimp only
      split
      · exact List.sublist_cons_self op rest
      · exact List.Sublist.refl _

theorem received_cases (op : PendingOp) (sweep : Sweep) (answer : Answer) :
    received op sweep answer = .accepted op sweep ∨ received op sweep answer = .drained ∨
      (∃ detail, received op sweep answer = .rejected op detail sweep) ∨
      ∃ message, received op sweep answer = .attempted op message sweep := by
  cases answer with
  | response => exact Or.inl rfl
  | unauthorized => exact Or.inr (Or.inl rfl)
  | offline => exact Or.inr (Or.inl rfl)
  | cancelled => exact Or.inr (Or.inl rfl)
  | failure message => exact Or.inr (Or.inr (Or.inr ⟨message, rfl⟩))
  | http status message =>
      simp only [received]
      split
      · exact Or.inr (Or.inr (Or.inl ⟨_, rfl⟩))
      · exact Or.inr (Or.inr (Or.inr ⟨_, rfl⟩))

theorem attempted_cases (ceiling : Nat) (answer : Answer) (store : OfflineStore) (op : PendingOp)
    (message : Text) (sweep : Sweep) :
    (passStep ceiling answer store (.attempted op message sweep)).2 = .parking op message sweep ∨
      (passStep ceiling answer store (.attempted op message sweep)).2 =
        .visiting (sweep.stall op.kind) := by
  simp only [passStep]
  split
  · exact Or.inl rfl
  · exact Or.inr rfl

theorem in_hand_received (op : PendingOp) (sweep : Sweep) (answer : Answer) :
    (received op sweep answer).inHand.Sublist (op :: sweep.rest) := by
  obtain next | next | ⟨_, next⟩ | ⟨_, next⟩ := received_cases op sweep answer
  · rw [next]
    exact List.Sublist.refl _
  · rw [next]
    exact List.nil_sublist _
  · rw [next]
    exact List.Sublist.refl _
  · rw [next]
    exact List.Sublist.refl _

theorem in_hand_pass_step (ceiling : Nat) (answer : Answer) (store : OfflineStore)
    (stage : Stage) :
    (passStep ceiling answer store stage).2.inHand.Sublist stage.inHand ∨
      stage = .sweepNext ∧
        (passStep ceiling answer store stage).2.inHand.Sublist (store.listOps ceiling) := by
  cases stage with
  | waiting => exact Or.inl (List.Sublist.refl _)
  | sweepNext =>
      apply Or.inr
      refine ⟨rfl, ?_⟩
      simp only [passStep]
      split
      · exact List.nil_sublist _
      · exact List.Sublist.refl _
  | visiting sweep => exact Or.inl (in_hand_visit sweep)
  | replaying op sweep => exact Or.inl (in_hand_received op sweep answer)
  | accepted op sweep => exact Or.inl (List.sublist_cons_self op sweep.rest)
  | rejected op detail sweep =>
      apply Or.inl
      simp only [passStep]
      split
      · exact List.Sublist.refl _
      · exact List.sublist_cons_self op sweep.rest
  | failing op token detail sweep => exact Or.inl (List.sublist_cons_self op sweep.rest)
  | attempted op message sweep =>
      apply Or.inl
      simp only [passStep]
      split
      · exact List.Sublist.refl _
      · exact List.sublist_cons_self op sweep.rest
  | parking op message sweep => exact Or.inl (List.sublist_cons_self op sweep.rest)
  | drained => exact Or.inl (List.Sublist.refl _)
  | finished => exact Or.inl (List.Sublist.refl _)

def Log.wasAccepted (log : Log) (id : Nat) : Prop := ∃ op ∈ log.accepted, op.id = id

def Log.wasReplaced (log : Log) (id : Nat) : Prop := ∃ entry ∈ log.replaced, entry.1.id = id

structure Books (ops : Ops) (log : Log) : Prop where
  known : ∀ queued ∈ log.queued, queued.op.id ≤ ops.seq
  unique : ∀ first ∈ log.queued, ∀ second ∈ log.queued,
    first.op.id = second.op.id → first = second
  listed : ∀ row ∈ ops.rows, ∃ queued ∈ log.queued, queued.op.request = row.request
  kept : ∀ queued ∈ log.queued, ops.hasRow queued.op.id = true ∨
    log.wasAccepted queued.op.id ∨ log.wasReplaced queued.op.id
  later : ∀ entry ∈ log.replaced, entry.1.id < entry.2 ∧
    ∃ queued ∈ log.queued, queued.op.id = entry.2 ∧ entry.1.kind ∈ queued.request.targets
  carried : ∀ queued ∈ log.queued, queued.request.carriedBy queued.op

namespace Books

variable {ops : Ops} {log : Log}

theorem has_row_marked (after : Ops) (marked : ops.Marked after) (id : Nat) :
    after.hasRow id = ops.hasRow id := by
  obtain ⟨-, update, rows, same⟩ := marked
  have sameId (row : PendingOp) : (update row).id = row.id :=
    (PendingOp.request_parts (same row).1).1
  simp [Ops.hasRow, rows, List.any_map, Function.comp_def, sameId]

theorem mark (books : Books ops log) (after : Ops) (marked : ops.Marked after) :
    Books after log := by
  refine ⟨?_, books.unique, ?_, ?_, books.later, books.carried⟩
  · rw [marked.1]
    exact books.known
  · intro row member
    obtain ⟨-, update, rows, same⟩ := marked
    rw [rows] at member
    obtain ⟨old, isOld, rfl⟩ := List.mem_map.mp member
    obtain ⟨queued, isQueued, sameRequest⟩ := books.listed old isOld
    exact ⟨queued, isQueued, sameRequest.trans (same old).1.symm⟩
  · intro queued isQueued
    rw [has_row_marked after marked]
    exact books.kept queued isQueued

theorem accept (books : Books ops log) (taken : List PendingOp) :
    Books ops { log with accepted := log.accepted ++ taken } := by
  refine ⟨books.known, books.unique, books.listed, ?_, books.later, books.carried⟩
  intro queued isQueued
  obtain inTable | ⟨op, isAccepted, same⟩ | replaced := books.kept queued isQueued
  · exact Or.inl inTable
  · exact Or.inr (Or.inl ⟨op, List.mem_append_left _ isAccepted, same⟩)
  · exact Or.inr (Or.inr replaced)

theorem retire (books : Books ops log) (id : Nat) (accepted : log.wasAccepted id) :
    Books (ops.deleteOps [id]) log := by
  refine ⟨books.known, books.unique, ?_, ?_, books.later, books.carried⟩
  · intro row member
    exact books.listed row (List.mem_of_mem_filter member)
  · intro queued isQueued
    by_cases same : queued.op.id = id
    · exact Or.inr (Or.inl (same ▸ accepted))
    apply (books.kept queued isQueued).imp_left
    intro inTable
    rw [Ops.has_row_iff] at inTable ⊢
    obtain ⟨row, member, sameId⟩ := inTable
    refine ⟨row, ?_, sameId⟩
    simp only [Ops.deleteOps, Ops.deleteWhere, List.mem_filter]
    refine ⟨member, ?_⟩
    simp [sameId, same]

end Books

theorem books_insert (before after : OfflineStore) (log : Log) (id : Nat) (request : Write)
    (books : Books before.ops log)
    (inserted : OfflineStore.Inserted before after id request) :
    Books after.ops
      { log with
        queued := log.queued ++ (after.ops.rows.filter fun row => decide (row.id = id)).map
          fun row => ⟨row, request⟩
        replaced := log.replaced ++
          (World.missing before.ops after.ops).map fun row => (row, id) } := by
  obtain ⟨fresh, seq, -, -, left, new, ⟨sameSeq, keep, leftRows, gone⟩, rows, newId,
    carried, -⟩ := inserted
  have old (row : PendingOp) (member : row ∈ left.rows) : row ∈ before.ops.rows ∧ row.id < id := by
    rw [leftRows] at member
    have inBefore := List.mem_of_mem_filter member
    have bounded := (before.ops.given row inBefore).2
    exact ⟨inBefore, by omega⟩
  have newRow : new ∈ after.ops.rows := by simp [rows]
  have onlyNew : (after.ops.rows.filter fun row => decide (row.id = id)) = [new] := by
    rw [rows, List.filter_append]
    have noOld : (left.rows.filter fun row => decide (row.id = id)) = [] := by
      rw [List.filter_eq_nil_iff]
      intro row member
      have below := (old row member).2
      simp only [decide_eq_true_eq]
      omega
    simp [noOld, newId]
  rw [onlyNew]
  have missing (row : PendingOp) (member : row ∈ World.missing before.ops after.ops) :
      row ∈ before.ops.rows ∧ row.kind ∈ request.targets := by
    simp only [World.missing, List.mem_filter] at member
    obtain ⟨inBefore, absent⟩ := member
    refine ⟨inBefore, gone row inBefore ?_⟩
    by_contra kept
    have inLeft : row ∈ after.ops.rows := by
      rw [rows, leftRows, List.mem_append, List.mem_filter]
      exact Or.inl ⟨inBefore, by simpa using kept⟩
    have present := (after.ops.has_row_iff row.id).mpr ⟨row, inLeft, rfl⟩
    simp [present] at absent
  constructor
  · intro queued member
    rw [List.mem_append] at member
    obtain earlier | isNew := member
    · exact (books.known queued earlier).trans (by omega)
    · simp only [List.map_cons, List.map_nil, List.mem_singleton] at isNew
      subst isNew
      change new.id ≤ _
      omega
  · intro first firstMember second secondMember same
    rw [List.mem_append] at firstMember secondMember
    simp only [List.map_cons, List.map_nil, List.mem_singleton] at firstMember secondMember
    obtain firstOld | rfl := firstMember
    · obtain secondOld | rfl := secondMember
      · exact books.unique first firstOld second secondOld same
      · have bounded := books.known first firstOld
        change first.op.id = new.id at same
        omega
    · obtain secondOld | rfl := secondMember
      · have bounded := books.known second secondOld
        change new.id = second.op.id at same
        omega
      · rfl
  · intro row member
    rw [rows, List.mem_append, List.mem_singleton] at member
    obtain isOld | rfl := member
    · obtain ⟨queued, isQueued, same⟩ := books.listed row (old row isOld).1
      exact ⟨queued, List.mem_append_left _ isQueued, same⟩
    · exact ⟨⟨row, request⟩, by simp, rfl⟩
  · intro queued member
    rw [List.mem_append] at member
    obtain earlier | isNew := member
    · obtain inTable | accepted | ⟨entry, isEntry, same⟩ := books.kept queued earlier
      · obtain ⟨row, isRow, same⟩ := (before.ops.has_row_iff _).mp inTable
        cases still : after.ops.hasRow queued.op.id with
        | true => exact Or.inl rfl
        | false =>
            apply Or.inr
            apply Or.inr
            refine ⟨(row, id), ?_, same⟩
            apply List.mem_append_right
            rw [List.mem_map]
            refine ⟨row, ?_, rfl⟩
            simp only [World.missing, List.mem_filter]
            exact ⟨isRow, by simp [same, still]⟩
      · exact Or.inr (Or.inl accepted)
      · exact Or.inr (Or.inr ⟨entry, List.mem_append_left _ isEntry, same⟩)
    · simp only [List.map_cons, List.map_nil, List.mem_singleton] at isNew
      subst isNew
      exact Or.inl ((after.ops.has_row_iff _).mpr ⟨new, newRow, rfl⟩)
  · intro entry member
    rw [List.mem_append] at member
    obtain earlier | isNew := member
    · obtain ⟨less, queued, isQueued, same⟩ := books.later entry earlier
      exact ⟨less, queued, List.mem_append_left _ isQueued, same⟩
    · obtain ⟨row, isMissing, rfl⟩ := List.mem_map.mp isNew
      obtain ⟨inBefore, among⟩ := missing row isMissing
      have bounded := (before.ops.given row inBefore).2
      refine ⟨?_, ⟨new, request⟩, by simp, newId, among⟩
      change row.id < id
      omega
  · intro queued member
    rw [List.mem_append] at member
    obtain earlier | isNew := member
    · exact books.carried queued earlier
    · simp only [List.map_cons, List.map_nil, List.mem_singleton] at isNew
      subst isNew
      exact carried

structure Ledger (world : World) : Prop where
  books : Books world.store.ops world.log
  hands : ∀ pass ∈ world.passes, ∀ op ∈ pass.stage.inHand,
    ∃ queued ∈ world.log.queued, queued.op.request = op.request
  accepting : ∀ pass ∈ world.passes, ∀ op sweep, pass.stage = .accepted op sweep →
    world.log.wasAccepted op.id

theorem request_of_hand (world : World) (ledger : Ledger world) (pass : Pass)
    (isPass : pass ∈ world.passes) (op row : PendingOp) (inHand : op ∈ pass.stage.inHand)
    (isRow : row ∈ world.store.ops.rows) (same : row.id = op.id) : row.request = op.request := by
  obtain ⟨first, isFirst, sameFirst⟩ := ledger.hands pass isPass op inHand
  obtain ⟨second, isSecond, sameSecond⟩ := ledger.books.listed row isRow
  have firstId := (PendingOp.request_parts sameFirst).1
  have secondId := (PendingOp.request_parts sameSecond).1
  have one := ledger.books.unique first isFirst second isSecond (by omega)
  rw [← sameSecond, ← sameFirst, one]

theorem ledger_launch (store : OfflineStore) : Ledger (World.launch store) := by
  refine ⟨?_, by simp [World.launch], by simp [World.launch]⟩
  constructor
  · intro queued member
    obtain ⟨row, isRow, rfl⟩ := List.mem_map.mp member
    exact (store.ops.given row isRow).2
  · intro first firstMember second secondMember same
    obtain ⟨row, isRow, rfl⟩ := List.mem_map.mp firstMember
    obtain ⟨other, isOther, rfl⟩ := List.mem_map.mp secondMember
    rw [store.ops.row_unique row other isRow isOther same]
  · intro row member
    exact ⟨_, List.mem_map_of_mem member, rfl⟩
  · intro queued member
    obtain ⟨row, isRow, rfl⟩ := List.mem_map.mp member
    exact Or.inl ((store.ops.has_row_iff _).mpr ⟨row, isRow, rfl⟩)
  · intro entry member
    cases member
  · intro queued member
    obtain ⟨row, isRow, rfl⟩ := List.mem_map.mp member
    exact ⟨rfl, rfl, rfl, rfl⟩

theorem queue_write_cases (world : World) (request : Write) (fault : Fault) :
    ((world.queueWrite request fault).1.store = world.store ∧
        (world.queueWrite request fault).1.log = world.log ∧
        (world.store.isOpen = false ∨ fault ≠ .none)) ∨
      OfflineStore.Inserted world.store (world.queueWrite request fault).1.store
        (world.queueWrite request fault).2 request := by
  obtain ⟨id, nothing, given, failed⟩ | inserted := world.store.queue_cases fault request
  · apply Or.inl
    have ungiven : (world.store.ops.rows.filter fun row => decide (row.id = id)) = [] := by
      rw [List.filter_eq_nil_iff]
      intro row member
      have bounds := world.store.ops.given row member
      simp only [decide_eq_true_eq]
      omega
    have noneMissing : World.missing world.store.ops world.store.ops = [] := by
      rw [World.missing, List.filter_eq_nil_iff]
      intro row member
      simp [(world.store.ops.has_row_iff row.id).mpr ⟨row, member, rfl⟩]
    simp [World.queueWrite, nothing, ungiven, noneMissing, failed]
  · exact Or.inr inserted

theorem write_logged (world : World) (request : Write) (opened : world.store.isOpen = true) :
    ∃ new : PendingOp, ⟨new, request⟩ ∈ (world.queueWrite request .none).1.log.queued ∧
      new.id = (world.queueWrite request .none).2 ∧ 0 < new.id ∧ request.carriedBy new := by
  obtain ⟨-, -, closed | failed⟩ | inserted := queue_write_cases world request .none
  · rw [opened] at closed
    cases closed
  · exact absurd rfl failed
  · obtain ⟨left, new, -, rows, newId, carried, -⟩ := inserted.rows
    have fresh := inserted.fresh
    refine ⟨new, ?_, newId, by omega, carried⟩
    apply List.mem_append_right
    rw [List.mem_map]
    refine ⟨new, ?_, rfl⟩
    rw [List.mem_filter]
    constructor
    · change new ∈ (world.queueWrite request .none).1.store.ops.rows
      rw [rows]
      exact List.mem_append_right _ (List.mem_singleton_self new)
    · exact decide_eq_true newId

theorem ledger_queue_write (world : World) (request : Write) (fault : Fault)
    (ledger : Ledger world) : Ledger (world.queueWrite request fault).1 := by
  obtain ⟨sameStore, sameLog, -⟩ | inserted :=
    queue_write_cases world request fault
  · constructor
    · rw [sameStore, sameLog]
      exact ledger.books
    · rw [sameLog]
      exact ledger.hands
    · rw [sameLog]
      exact ledger.accepting
  · constructor
    · exact books_insert world.store _ world.log _ request ledger.books inserted
    · intro pass member op inHand
      obtain ⟨queued, isQueued, same⟩ := ledger.hands pass member op inHand
      exact ⟨queued, List.mem_append_left _ isQueued, same⟩
    · exact ledger.accepting

theorem mem_set_cases {Item : Type*} (items : List Item) (index : Nat) (new item : Item)
    (member : item ∈ items.set index new) : item = new ∨ item ∈ items :=
  (List.mem_or_eq_of_mem_set member).symm

theorem list_ops_mem (store : OfflineStore) (ceiling : Nat) (op : PendingOp)
    (member : op ∈ store.listOps ceiling) :
    op ∈ store.ops.rows ∧ op.pending = true ∧ op.id ≤ ceiling := by
  unfold OfflineStore.listOps at member
  split at member
  · have taken := List.mem_of_mem_take member
    simpa [Ops.pendingUpTo] using taken
  · cases member

theorem rows_pass_step (ceiling : Nat) (answer : Answer) (store : OfflineStore) (stage : Stage)
    (row : PendingOp) (member : row ∈ (passStep ceiling answer store stage).1.rows) :
    ∃ old ∈ store.ops.rows, old.request = row.request ∧
      (row.pending = true → old.pending = true) := by
  have ofMarked (after : Ops) (marked : store.ops.Marked after) (inAfter : row ∈ after.rows) :
      ∃ old ∈ store.ops.rows, old.request = row.request ∧
        (row.pending = true → old.pending = true) := by
    obtain ⟨-, update, rows, keeps⟩ := marked
    rw [rows] at inAfter
    obtain ⟨old, isOld, rfl⟩ := List.mem_map.mp inAfter
    refine ⟨old, isOld, (keeps old).1.symm, ?_⟩
    intro pending
    by_contra held
    rw [(keeps old).2 (by simpa using held)] at pending
    cases pending
  cases stage with
  | waiting => exact ⟨row, member, rfl, fun pending => pending⟩
  | sweepNext => exact ⟨row, member, rfl, fun pending => pending⟩
  | visiting => exact ⟨row, member, rfl, fun pending => pending⟩
  | replaying => exact ⟨row, member, rfl, fun pending => pending⟩
  | accepted => exact ⟨row, List.mem_of_mem_filter member, rfl, fun pending => pending⟩
  | rejected => exact ofMarked _ (store.ops.marked_note_failure _ _) member
  | failing => exact ofMarked _ (store.ops.marked_fail_referencing _ _ _) member
  | attempted => exact ofMarked _ (store.ops.marked_note_attempt _) member
  | parking => exact ofMarked _ (store.ops.marked_note_failure _ _) member
  | drained => exact ⟨row, member, rfl, fun pending => pending⟩
  | finished => exact ⟨row, member, rfl, fun pending => pending⟩

theorem books_pass_step (ceiling : Nat) (answer : Answer) (store : OfflineStore) (stage : Stage)
    (log : Log) (books : Books store.ops log)
    (accepting : ∀ op sweep, stage = .accepted op sweep → log.wasAccepted op.id) :
    Books (passStep ceiling answer store stage).1
      { log with accepted := log.accepted ++ World.taken stage answer } := by
  apply Books.accept
  cases stage with
  | waiting => exact books
  | sweepNext => exact books
  | visiting => exact books
  | replaying => exact books
  | accepted op sweep => exact books.retire op.id (accepting op sweep rfl)
  | rejected => exact books.mark _ (store.ops.marked_note_failure _ _)
  | failing => exact books.mark _ (store.ops.marked_fail_referencing _ _ _)
  | attempted => exact books.mark _ (store.ops.marked_note_attempt _)
  | parking => exact books.mark _ (store.ops.marked_note_failure _ _)
  | drained => exact books
  | finished => exact books

theorem accepted_of_pass_step (ceiling : Nat) (answer : Answer) (store : OfflineStore)
    (stage : Stage) (op : PendingOp) (sweep : Sweep)
    (stepped : (passStep ceiling answer store stage).2 = .accepted op sweep) :
    op ∈ World.taken stage answer := by
  cases stage with
  | waiting => cases stepped
  | sweepNext => simp only [passStep] at stepped; split at stepped <;> cases stepped
  | visiting sweep =>
      simp only [passStep, visit] at stepped
      split at stepped <;> split at stepped <;> cases stepped
  | replaying other sweep =>
      cases answer with
      | response =>
          simp only [passStep, received, Stage.accepted.injEq] at stepped
          simp [World.taken, stepped.1]
      | http status message =>
          simp only [passStep, received] at stepped
          split at stepped <;> cases stepped
      | unauthorized => cases stepped
      | offline => cases stepped
      | cancelled => cases stepped
      | failure => cases stepped
  | accepted => cases stepped
  | rejected => simp only [passStep] at stepped; split at stepped <;> cases stepped
  | failing => cases stepped
  | attempted => simp only [passStep] at stepped; split at stepped <;> cases stepped
  | parking => cases stepped
  | drained => cases stepped
  | finished => cases stepped

theorem ledger_advance (world : World) (id : Nat) (pass : Pass) (answer : Answer)
    (ledger : Ledger world) (found : world.passes[id]? = some pass) :
    Ledger (world.advance id pass answer) := by
  have isPass : pass ∈ world.passes := List.mem_of_getElem? found
  constructor
  · exact books_pass_step _ _ _ _ _ ledger.books (ledger.accepting pass isPass)
  · intro other member op inHand
    obtain rfl | old := mem_set_cases _ _ _ _ member
    · obtain fewer | ⟨-, fewer⟩ := in_hand_pass_step pass.ceiling answer world.store pass.stage
      · exact ledger.hands pass isPass op (fewer.subset inHand)
      · apply ledger.books.listed
        exact (list_ops_mem _ _ _ (fewer.subset inHand)).1
    · exact ledger.hands other old op inHand
  · intro other member op sweep stage
    obtain rfl | old := mem_set_cases _ _ _ _ member
    · exact ⟨op, List.mem_append_right _ (accepted_of_pass_step _ _ _ _ op sweep stage), rfl⟩
    · obtain ⟨accepted, isAccepted, same⟩ := ledger.accepting other old op sweep stage
      exact ⟨accepted, List.mem_append_left _ isAccepted, same⟩

theorem ledger_join_or_start (world : World) (ceiling : Nat) (ledger : Ledger world) :
    Ledger (world.joinOrStart ceiling).1 := by
  obtain ⟨same, -⟩ | started := world.join_or_start_cases ceiling
  · rw [same]
    exact ledger
  · rw [started]
    refine ⟨ledger.books, ?_, ?_⟩
    · intro pass member op inHand
      rw [List.mem_append, List.mem_singleton] at member
      obtain old | rfl := member
      · exact ledger.hands pass old op inHand
      · cases inHand
    · intro pass member op sweep stage
      rw [List.mem_append, List.mem_singleton] at member
      obtain old | rfl := member
      · exact ledger.accepting pass old op sweep stage
      · cases stage

theorem ledger_step (world : World) (action : Action) (next : World) (ledger : Ledger world)
    (stepped : world.step action = some next) : Ledger next := by
  obtain ⟨request, fault, calls, -, rfl⟩ | ⟨calls, -, rfl⟩ |
    ⟨_, _, ceiling, calls, -, -, rfl⟩ |
    ⟨id, answer, pass, -, found, -, rfl⟩ | ⟨-, rfl⟩ := world.step_cases action next stepped
  · have queued := ledger_queue_write world request fault ledger
    exact ⟨queued.books, queued.hands, queued.accepting⟩
  · exact ⟨ledger.books, ledger.hands, ledger.accepting⟩
  · have joined := ledger_join_or_start world ceiling ledger
    exact ⟨joined.books, joined.hands, joined.accepting⟩
  · exact ledger_advance world id pass answer ledger found
  · exact ⟨ledger.books, by simp, by simp⟩

end Omnibus.Outbox
