import Omnibus.Outbox.Ledger

/-!
# What a finished write answers

A write answers that it left the queue when no row has its id. A write that never made a row
is answered the same way as one that landed, and so is one whose row the COMMIT lost, so the
answer is right for the writes whose row was kept and whose question reached the table.
-/

namespace Omnibus.Outbox

open Omnibus.Library.Runs

/-- The server accepted a request with all the write says, or a later write of a kind that
replaces it took its row. -/
def Landed (world : World) (request : Write) (id : Nat) : Prop :=
  ∃ queued ∈ world.log.queued, queued.op.id = id ∧ queued.request = request ∧
    request.carriedBy queued.op ∧
    ((∃ op ∈ world.log.accepted, op.request = queued.op.request) ∨
      ∃ later ∈ world.log.queued, (queued.op.request, later.op.id) ∈
          world.log.replaced.map (fun entry => (entry.1.request, entry.2)) ∧
        id < later.op.id ∧ queued.op.kind ∈ later.request.targets)

structure Grows (before after : Log) : Prop where
  queued : before.queued ⊆ after.queued
  accepted : before.accepted ⊆ after.accepted
  replaced : before.replaced ⊆ after.replaced

theorem Grows.refl (log : Log) : Grows log log :=
  ⟨List.Subset.refl _, List.Subset.refl _, List.Subset.refl _⟩

theorem grows_step (world : World) (action : Action) (next : World)
    (stepped : world.step action = some next) : Grows world.log next.log := by
  obtain ⟨request, fault, calls, -, rfl⟩ | ⟨calls, -, rfl⟩ | ⟨_, _, ceiling, calls, -, -, rfl⟩ |
    ⟨id, answer, pass, -, found, -, rfl⟩ | ⟨-, rfl⟩ := world.step_cases action next stepped
  · exact ⟨List.subset_append_left _ _, List.Subset.refl _, List.subset_append_left _ _⟩
  · exact Grows.refl _
  · obtain ⟨same, -⟩ | started := world.join_or_start_cases ceiling
    · rw [same]
      exact Grows.refl _
    · rw [started]
      exact Grows.refl _
  · exact ⟨List.Subset.refl _, List.subset_append_left _ _, List.Subset.refl _⟩
  · exact Grows.refl _

theorem open_step (world : World) (action : Action) (next : World)
    (stepped : world.step action = some next) : next.store.isOpen = world.store.isOpen := by
  obtain ⟨request, fault, calls, -, rfl⟩ | ⟨calls, -, rfl⟩ | ⟨_, _, ceiling, calls, -, -, rfl⟩ |
    ⟨id, answer, pass, -, found, -, rfl⟩ | ⟨-, rfl⟩ := world.step_cases action next stepped
  · obtain ⟨sameStore, -, -⟩ | inserted := queue_write_cases world request fault
    · rw [sameStore]
    · exact inserted.sameOpen
  · rfl
  · obtain ⟨same, -⟩ | started := world.join_or_start_cases ceiling
    · rw [same]
    · rw [started]
  · rfl
  · rfl

theorem landed_grows (before after : World) (request : Write) (id : Nat)
    (grows : Grows before.log after.log) (landed : Landed before request id) :
    Landed after request id := by
  obtain ⟨queued, isQueued, sameId, sameRequest, carried, how⟩ := landed
  refine ⟨queued, grows.queued isQueued, sameId, sameRequest, carried, ?_⟩
  obtain ⟨op, isAccepted, same⟩ | ⟨later, isLater, isEntry, after', target⟩ := how
  · exact Or.inl ⟨op, grows.accepted isAccepted, same⟩
  · exact Or.inr ⟨later, grows.queued isLater, List.map_subset _ grows.replaced isEntry, after',
      target⟩

structure Traced (log : Log) : Prop where
  accepted : ∀ op ∈ log.accepted, ∃ queued ∈ log.queued, queued.op.request = op.request
  replaced : ∀ entry ∈ log.replaced, ∃ queued ∈ log.queued, queued.op.request = entry.1.request

theorem traced_step (world : World) (action : Action) (next : World) (ledger : Ledger world)
    (traced : Traced world.log) (stepped : world.step action = some next) : Traced next.log := by
  obtain ⟨request, fault, calls, -, rfl⟩ | ⟨calls, -, rfl⟩ | ⟨_, _, ceiling, calls, -, -, rfl⟩ |
    ⟨id, answer, pass, -, found, -, rfl⟩ | ⟨-, rfl⟩ := world.step_cases action next stepped
  · constructor
    · intro op member
      obtain ⟨queued, isQueued, same⟩ := traced.accepted op member
      exact ⟨queued, List.mem_append_left _ isQueued, same⟩
    · intro entry member
      obtain old | new := List.mem_append.mp member
      · obtain ⟨queued, isQueued, same⟩ := traced.replaced entry old
        exact ⟨queued, List.mem_append_left _ isQueued, same⟩
      · obtain ⟨row, isMissing, rfl⟩ := List.mem_map.mp new
        obtain ⟨queued, isQueued, same⟩ := ledger.books.listed row (List.mem_of_mem_filter isMissing)
        exact ⟨queued, List.mem_append_left _ isQueued, same⟩
  · exact traced
  · obtain ⟨same, -⟩ | started := world.join_or_start_cases ceiling
    · rw [same]
      exact traced
    · rw [started]
      exact traced
  · refine ⟨?_, traced.replaced⟩
    intro op member
    obtain old | new := List.mem_append.mp member
    · exact traced.accepted op old
    · have inHand : op ∈ pass.stage.inHand := by
        cases isStage : pass.stage with
        | replaying other sweep =>
            cases answer with
            | response =>
                simp only [isStage, World.taken, List.mem_singleton] at new
                simp [new, Stage.inHand, Stage.op?]
            | _ => simp [isStage, World.taken] at new
        | _ => simp [isStage, World.taken] at new
      exact ledger.hands pass (List.mem_of_getElem? found) op inHand
  · exact traced

/-- The store took the write's row and committed it, and the question about it was asked of the
table. -/
def StoreWorks (world : World) : Action → Prop
  | .write _ fault => world.store.isOpen = true ∧ fault = .none
  | .resume _ queryFails => queryFails = false
  | _ => True

instance (world : World) : (action : Action) → Decidable (StoreWorks world action)
  | .write _ fault =>
      inferInstanceAs (Decidable (world.store.isOpen = true ∧ fault = .none))
  | .resume _ queryFails => inferInstanceAs (Decidable (queryFails = false))
  | .record _ _ => isTrue trivial
  | .drain => isTrue trivial
  | .bound _ => isTrue trivial
  | .arrive _ => isTrue trivial
  | .advance _ _ => isTrue trivial
  | .kill => isTrue trivial

/-- Calls ask about rows that were made, and an answer that one is gone is right. -/
structure Answered (world : World) : Prop where
  written : ∀ call ∈ world.calls, ∀ request id, call.write = some (request, id) →
    world.store.isOpen = true ∧ 0 < id ∧
      ∃ queued ∈ world.log.queued, queued.op.id = id ∧ queued.request = request
  landed : ∀ call ∈ world.calls, call.stage = .returned true →
    ∀ request id, call.write = some (request, id) → Landed world request id

theorem landed_of_gone (world : World) (ledger : Ledger world) (traced : Traced world.log)
    (queued : Queued) (isQueued : queued ∈ world.log.queued)
    (gone : world.store.ops.hasRow queued.op.id = false) :
    Landed world queued.request queued.op.id := by
  have books := ledger.books
  refine ⟨queued, isQueued, rfl, rfl, books.carried queued isQueued, ?_⟩
  obtain present | ⟨op, isAccepted, same⟩ | ⟨entry, isEntry, same⟩ := books.kept queued isQueued
  · rw [gone] at present
    cases present
  · obtain ⟨source, isSource, sameRequest⟩ := traced.accepted op isAccepted
    have sameSource := books.unique source isSource queued isQueued
      ((PendingOp.request_parts sameRequest).1.trans same)
    subst sameSource
    exact Or.inl ⟨op, isAccepted, sameRequest.symm⟩
  · obtain ⟨less, later, isLater, sameLater, target⟩ := books.later entry isEntry
    obtain ⟨source, isSource, sameRequest⟩ := traced.replaced entry isEntry
    obtain ⟨sourceId, sourceKind, -⟩ := PendingOp.request_parts sameRequest
    have sameSource := books.unique source isSource queued isQueued (sourceId.trans same)
    subst sameSource
    refine Or.inr ⟨later, isLater, ?_, by omega, sourceKind ▸ target⟩
    rw [List.mem_map]
    exact ⟨entry, isEntry, by rw [sameRequest, sameLater]⟩

theorem answered_grows (world next : World) (answered : Answered world)
    (grows : Grows world.log next.log) (sameOpen : next.store.isOpen = world.store.isOpen)
    (call : Call) (isCall : call ∈ world.calls) :
    (∀ request id, call.write = some (request, id) → next.store.isOpen = true ∧ 0 < id ∧
      ∃ queued ∈ next.log.queued, queued.op.id = id ∧ queued.request = request) ∧
    (call.stage = .returned true → ∀ request id, call.write = some (request, id) →
      Landed next request id) := by
  constructor
  · intro request id isWrite
    obtain ⟨opened, positive, queued, isQueued, same⟩ :=
      answered.written call isCall request id isWrite
    exact ⟨sameOpen.trans opened, positive, queued, grows.queued isQueued, same⟩
  · intro returned request id isWrite
    exact landed_grows world next request id grows
      (answered.landed call isCall returned request id isWrite)

theorem step_call_cases (world : World) (action : Action) (next : World)
    (stepped : world.step action = some next) (call : Call) (isCall : call ∈ next.calls) :
    call ∈ world.calls ∨
    (∃ request fault, action = .write request fault ∧
      call = ⟨some (request, (world.queueWrite request fault).2), .called⟩ ∧
      next.log = (world.queueWrite request fault).1.log) ∨
    (∃ old ∈ world.calls, call.write = old.write ∧ ∀ left, call.stage ≠ .returned left) ∨
    (call.write = none ∧ call.stage = .called) ∨
    (∃ old ∈ world.calls, ∃ index queryFails, action = .resume index queryFails ∧
      call.write = old.write ∧ next.store = world.store ∧ next.log = world.log ∧
      call.stage = .returned
        (old.write.all fun asked => !world.store.hasOp queryFails asked.2)) := by
  cases action with
  | write request fault =>
      obtain rfl := Option.some.inj stepped
      obtain old | new := List.mem_append.mp isCall
      · exact Or.inl old
      · exact Or.inr (Or.inl ⟨request, fault, rfl, List.mem_singleton.mp new, rfl⟩)
  | record request fault =>
      obtain rfl := Option.some.inj stepped
      exact Or.inl isCall
  | drain =>
      obtain rfl := Option.some.inj stepped
      obtain old | new := List.mem_append.mp isCall
      · exact Or.inl old
      · rw [List.mem_singleton.mp new]
        exact Or.inr (Or.inr (Or.inr (Or.inl ⟨rfl, rfl⟩)))
  | bound index =>
      simp only [World.step] at stepped
      split at stepped
      · rename_i write found
        obtain rfl := Option.some.inj stepped
        obtain rfl | old := mem_set_cases _ _ _ _ isCall
        · exact Or.inr (Or.inr (Or.inl ⟨_, List.mem_of_getElem? found, rfl, by simp⟩))
        · exact Or.inl old
      · cases stepped
  | arrive index =>
      simp only [World.step] at stepped
      split at stepped
      · rename_i write ceiling found
        obtain rfl := Option.some.inj stepped
        obtain rfl | old := mem_set_cases _ _ _ _ isCall
        · exact Or.inr (Or.inr (Or.inl ⟨_, List.mem_of_getElem? found, rfl, by simp⟩))
        · exact Or.inl old
      · cases stepped
  | resume index queryFails =>
      simp only [World.step] at stepped
      split at stepped
      · rename_i write pass found
        split at stepped
        · obtain rfl := Option.some.inj stepped
          obtain rfl | old := mem_set_cases _ _ _ _ isCall
          · exact Or.inr (Or.inr (Or.inr (Or.inr ⟨_, List.mem_of_getElem? found, index, queryFails,
              rfl, rfl, rfl, rfl, rfl⟩)))
          · exact Or.inl old
        · cases stepped
      · cases stepped
  | advance id answer =>
      simp only [World.step] at stepped
      split at stepped
      · split at stepped
        · obtain rfl := Option.some.inj stepped
          exact Or.inl isCall
        · cases stepped
      · cases stepped
  | kill =>
      obtain rfl := Option.some.inj stepped
      cases isCall

theorem answered_step (world : World) (action : Action) (next : World)
    (invariant : Ledger world ∧ Traced world.log ∧ Answered world)
    (works : StoreWorks world action) (stepped : world.step action = some next) :
    Ledger next ∧ Traced next.log ∧ Answered next := by
  obtain ⟨ledger, traced, answered⟩ := invariant
  have grows := grows_step world action next stepped
  have sameOpen := open_step world action next stepped
  refine ⟨ledger_step world action next ledger stepped,
    traced_step world action next ledger traced stepped, ?_⟩
  have known (call : Call) (isCall : call ∈ next.calls) :
      (∀ request id, call.write = some (request, id) → next.store.isOpen = true ∧ 0 < id ∧
        ∃ queued ∈ next.log.queued, queued.op.id = id ∧ queued.request = request) ∧
      (call.stage = .returned true → ∀ request id, call.write = some (request, id) →
        Landed next request id) := by
    obtain old | ⟨request, fault, rfl, rfl, sameLog⟩ | ⟨old, isOld, sameWrite, notDone⟩ |
      ⟨noWrite, isCalled⟩ | ⟨old, isOld, index, queryFails, rfl, sameWrite, sameStore, sameLog,
        returned⟩ := step_call_cases world action next stepped call isCall
    · exact answered_grows world next answered grows sameOpen call old
    · obtain ⟨opened, rfl⟩ := works
      refine ⟨?_, by simp⟩
      intro other id isWrite
      simp only [Option.some.injEq, Prod.mk.injEq] at isWrite
      obtain ⟨rfl, rfl⟩ := isWrite
      obtain ⟨new, isLogged, newId, positive, _⟩ := write_logged world request opened
      refine ⟨sameOpen.trans opened, newId ▸ positive, ⟨new, request⟩, ?_, newId, rfl⟩
      rw [sameLog]
      exact isLogged
    · obtain ⟨written, -⟩ := answered_grows world next answered grows sameOpen old isOld
      rw [sameWrite]
      exact ⟨written, fun done => absurd done (notDone true)⟩
    · rw [noWrite]
      simp
    · obtain ⟨written, -⟩ := answered_grows world next answered grows sameOpen old isOld
      rw [sameWrite]
      refine ⟨written, ?_⟩
      intro done request id isWrite
      obtain ⟨opened, positive, queued, isQueued, sameId, sameRequest⟩ :=
        answered.written old isOld request id isWrite
      have ran : queryFails = false := works
      rw [returned, isWrite, CallStage.returned.injEq] at done
      have nonzero : id ≠ 0 := by omega
      have gone : world.store.ops.hasRow queued.op.id = false := by
        simpa [OfflineStore.hasOp, opened, ran, nonzero, sameId] using done
      have landed := landed_of_gone world ledger traced queued isQueued gone
      rw [sameId, sameRequest] at landed
      exact landed_grows world next request id grows landed
  constructor
  · intro call isCall
    exact (known call isCall).1
  · intro call isCall
    exact (known call isCall).2

/-- A write that made its row and asked the table answers true only when it landed. -/
theorem left_queue_means_landed (store : OfflineStore) (actions : List Action) (world : World)
    (meets : Meets World.step StoreWorks (World.launch store) actions)
    (ran : run World.step (World.launch store) actions = some world) (call : Call)
    (isCall : call ∈ world.calls) (request : Write) (id : Nat)
    (isWrite : call.write = some (request, id)) (left : call.stage = .returned true) :
    Landed world request id := by
  have start : Ledger (World.launch store) ∧ Traced (World.launch store).log ∧
      Answered (World.launch store) := by
    refine ⟨ledger_launch store, ?_, ?_⟩
    · constructor <;> simp [World.launch]
    · constructor <;> simp [World.launch]
  obtain ⟨-, -, answered⟩ := run_keeps World.step answered_step actions start meets ran
  exact answered.landed call isCall left request id isWrite

def ratingWrite : Write :=
  .whole "rating:b".toList "/api/ratings".toList .post none true []

def writeAndDrain (awaits : Nat) : List Action :=
  [.write ratingWrite .none, .bound 0, .arrive 0] ++
    List.replicate awaits (.advance 0 .response) ++ [.resume 0 false]

theorem left_queue_means_landed_rating :
    ∃ world, run World.step (World.launch ⟨true, Ops.empty⟩) (writeAndDrain 8) = some world ∧
      Landed world ratingWrite 1 := by
  obtain ⟨world, ran⟩ := Option.isSome_iff_exists.mp (show (run World.step
    (World.launch ⟨true, Ops.empty⟩) (writeAndDrain 8)).isSome = true by decide +kernel)
  have calls : (run World.step (World.launch ⟨true, Ops.empty⟩) (writeAndDrain 8)).map
      (·.calls) = some [⟨some (ratingWrite, 1), .returned true⟩] := by decide +kernel
  rw [ran, Option.map_some, Option.some.injEq] at calls
  have works : Meets World.step StoreWorks (World.launch ⟨true, Ops.empty⟩)
      (writeAndDrain 8) := by
    decide +kernel
  exact ⟨world, ran, left_queue_means_landed _ _ world works ran _
    (by rw [calls]; exact List.mem_singleton_self _) ratingWrite 1 rfl rfl⟩

/-- Over a store that did not open the same write makes no row and answers that it left. -/
theorem left_queue_without_landing :
    ¬∀ (store : OfflineStore) (actions : List Action) (world : World),
      run World.step (World.launch store) actions = some world →
        ∀ call ∈ world.calls, ∀ request id, call.write = some (request, id) →
          call.stage = .returned true → Landed world request id := by
  intro claimed
  obtain ⟨world, ran⟩ := Option.isSome_iff_exists.mp (show (run World.step
    (World.launch ⟨false, Ops.empty⟩) (writeAndDrain 3)).isSome = true by decide +kernel)
  have outcome : (run World.step (World.launch ⟨false, Ops.empty⟩) (writeAndDrain 3)).map
      (fun world => (world.calls, world.log.queued)) =
        some ([⟨some (ratingWrite, 0), .returned true⟩], []) := by decide +kernel
  rw [ran, Option.map_some, Option.some.injEq, Prod.mk.injEq] at outcome
  obtain ⟨calls, noneQueued⟩ := outcome
  obtain ⟨queued, isQueued, -⟩ := claimed _ _ world ran _
    (by rw [calls]; exact List.mem_singleton_self _) ratingWrite 0 rfl rfl
  rw [noneQueued] at isQueued
  cases isQueued

end Omnibus.Outbox
