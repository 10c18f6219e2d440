import Omnibus.Library.Runs
import Omnibus.Outbox.Store

/-!
# The outbox drain

`SyncEngine.swift`: writes that queue and then drain, drain passes that chain on one another,
and the sweeps of a pass. A pass is a small machine that stands still at each `await`; a world
is the table, the machines and callers of one launch, and what the server has taken. Any
caller, pass or answer may come next, and the process may be killed between any two steps.
-/

namespace Omnibus.Outbox

open Omnibus.Library.Strings

inductive Answer where
  | response
  | unauthorized
  | offline
  | cancelled
  | http (status : Nat) (message : Text)
  | failure (message : Text)
  deriving DecidableEq

def maxReplayAttempts : Nat := 6

def retryableClientStatuses : List Nat := [408, 425, 429]

def isTerminalRejection (status : Nat) : Bool :=
  decide (400 ≤ status) && decide (status < 500) && !retryableClientStatuses.contains status

def progressPrefix : Text := "progress:".toList

def playbackRatePrefix : Text := "playback_rate:".toList

def isExemptFromReplayCap (kind : Text) : Bool :=
  progressPrefix.isPrefixOf kind || playbackRatePrefix.isPrefixOf kind

def clientIdKey : Text := "client_id".toList

/-- The `client_id` a create's body carries. -/
def clientId (op : PendingOp) : Option Text :=
  match (PatchCoalescing.object op.body).bind fun fields => fields.lookup clientIdKey with
  | some (.string text) => some text
  | _ => none

def nilIfBlank (text : Text) : Option Text := if trim text = [] then none else some (trim text)

def clientToken (op : PendingOp) : Option Text := (clientId op).bind nilIfBlank

def rejectionDetail (status : Nat) (message : Text) : Text :=
  if message = [] then "Rejected (".toList ++ decimal status ++ ")".toList else message

def retryableDetail (answer : Answer) : Text :=
  match answer with
  | .http status message =>
      if message = [] then "Server error (".toList ++ decimal status ++ ")".toList else message
  | .failure message => message
  | _ => []

/-- One sweep: the window it read, what the loop has still to visit, and its two counters. -/
structure Sweep where
  ops : List PendingOp
  rest : List PendingOp
  retired : Nat
  stalled : List Text
  deriving DecidableEq

/-- Where a pass stands between two awaits. -/
inductive Stage where
  | waiting
  | sweepNext
  | visiting (sweep : Sweep)
  | replaying (op : PendingOp) (sweep : Sweep)
  | accepted (op : PendingOp) (sweep : Sweep)
  | rejected (op : PendingOp) (detail : Text) (sweep : Sweep)
  | failing (op : PendingOp) (token detail : Text) (sweep : Sweep)
  | attempted (op : PendingOp) (message : Text) (sweep : Sweep)
  | parking (op : PendingOp) (message : Text) (sweep : Sweep)
  | drained
  | finished
  deriving DecidableEq

def Sweep.retire (sweep : Sweep) : Sweep := { sweep with retired := sweep.retired + 1 }

def Sweep.stall (sweep : Sweep) (kind : Text) : Sweep :=
  { sweep with stalled := kind :: sweep.stalled }

def received (op : PendingOp) (sweep : Sweep) : Answer → Stage
  | .response => .accepted op sweep
  | .unauthorized => .drained
  | .offline => .drained
  | .cancelled => .drained
  | .http status message =>
      if isTerminalRejection status then .rejected op (rejectionDetail status message) sweep
      else .attempted op (retryableDetail (.http status message)) sweep
  | .failure message => .attempted op message sweep

/-- The loop over the window: the end of it, a stalled op passed over, or the next request. -/
def visit (sweep : Sweep) : Stage :=
  match sweep.rest with
  | [] => if 0 < sweep.retired then .sweepNext else .drained
  | op :: rest =>
      if sweep.stalled.contains op.kind then .visiting { sweep with rest := rest }
      else .replaying op { sweep with rest := rest }

/-- A pass from one await to the next. The answer is read only while a request is out. -/
def passStep (ceiling : Nat) (answer : Answer) (store : OfflineStore) : Stage → Ops × Stage
  | .waiting => (store.ops, .sweepNext)
  | .sweepNext =>
      let ops := store.listOps ceiling
      (store.ops, if ops = [] then .drained else .visiting ⟨ops, ops, 0, []⟩)
  | .visiting sweep => (store.ops, visit sweep)
  | .replaying op sweep => (store.ops, received op sweep answer)
  | .accepted op sweep => (store.ops.deleteOps [op.id], .visiting sweep.retire)
  | .rejected op detail sweep =>
      (store.ops.noteOpFailure op.id detail,
        match clientToken op with
        | some token => .failing op token detail sweep
        | none => .visiting sweep.retire)
  | .failing op token detail sweep =>
      (store.ops.failOpsReferencing token op.id detail, .visiting sweep.retire)
  | .attempted op message sweep =>
      let noted := store.ops.noteOpAttempt op.id
      (noted.1,
        if maxReplayAttempts ≤ noted.2 ∧ isExemptFromReplayCap op.kind = false then
          .parking op message sweep
        else .visiting (sweep.stall op.kind))
  | .parking op message sweep =>
      (store.ops.noteOpFailure op.id message, .visiting (sweep.stall op.kind))
  | .drained => (store.ops, .finished)
  | .finished => (store.ops, .finished)

structure Pass where
  ceiling : Nat
  previous : Option Nat
  stage : Stage
  deriving DecidableEq

/-- Where a caller of `drain` stands. -/
inductive CallStage where
  | called
  | bounded (ceiling : Nat)
  | joined (pass : Nat)
  | returned (left : Bool)
  deriving DecidableEq

/-- A caller, and the mutation and row id it asks about afterwards when it is a write. -/
structure Call where
  write : Option (Write × Nat)
  stage : CallStage
  deriving DecidableEq

structure Queued where
  op : PendingOp
  request : Write
  deriving DecidableEq

/-- What happened so far: the mutations queued, the requests the server accepted, and the rows
that made way for a later one. -/
structure Log where
  queued : List Queued
  accepted : List PendingOp
  replaced : List (PendingOp × Nat)
  deriving DecidableEq

structure World where
  store : OfflineStore
  passes : List Pass
  current : Option (Nat × Nat)
  calls : List Call
  log : Log
  deriving DecidableEq

def World.launch (store : OfflineStore) : World where
  store := store
  passes := []
  current := none
  calls := []
  log :=
    ⟨store.ops.rows.map fun row =>
      ⟨row, .whole row.kind row.path row.method row.body false []⟩, [], []⟩

inductive Action where
  | write (request : Write) (fault : Fault)
  | record (request : Write) (fault : Fault)
  | drain
  | bound (call : Nat)
  | arrive (call : Nat)
  | resume (call : Nat) (queryFails : Bool)
  | advance (pass : Nat) (answer : Answer)
  | kill
  deriving DecidableEq

/-- Steps of a caller that leave the table, the passes and the log as they are. -/
def Action.quiet : Action → Bool
  | .drain => true
  | .bound _ => true
  | .resume _ _ => true
  | _ => false

namespace World

def missing (before after : Ops) : List PendingOp :=
  before.rows.filter fun row => !after.hasRow row.id

def queueWrite (world : World) (request : Write) (fault : Fault) : World × Nat :=
  let queued := world.store.queue fault request
  let inserted := queued.1.ops.rows.filter fun row => decide (row.id = queued.2)
  ({ world with
      store := queued.1
      log :=
        { world.log with
          queued := world.log.queued ++ inserted.map fun row => ⟨row, request⟩
          replaced := world.log.replaced ++
            (missing world.store.ops queued.1.ops).map fun row => (row, queued.2) } },
    queued.2)

/-- The synchronous part of `drain`: join the current pass when it reaches far enough, else
chain a new one behind it. -/
def joinOrStart (world : World) (ceiling : Nat) : World × Nat :=
  match world.current with
  | some (bound, id) =>
      if ceiling ≤ bound then (world, id)
      else
        ({ world with
            passes := world.passes ++ [⟨ceiling, some id, .waiting⟩]
            current := some (ceiling, world.passes.length) }, world.passes.length)
  | none =>
      ({ world with
          passes := world.passes ++ [⟨ceiling, none, .waiting⟩]
          current := some (ceiling, world.passes.length) }, world.passes.length)

def passFinished (world : World) (id : Nat) : Bool :=
  (world.passes[id]?).any fun pass => pass.stage = .finished

/-- A pass that waits may go on once the pass before it has finished. -/
def mayAdvance (world : World) (pass : Pass) : Bool :=
  match pass.stage with
  | .waiting => pass.previous.all world.passFinished
  | .finished => false
  | _ => true

def taken : Stage → Answer → List PendingOp
  | .replaying op _, .response => [op]
  | _, _ => []

/-- The slot is freed only while it still holds the pass that ends. -/
def releaseCurrent (current : Option (Nat × Nat)) (id : Nat) : Stage → Option (Nat × Nat)
  | .drained => if current.map (·.2) = some id then none else current
  | _ => current

def advance (world : World) (id : Nat) (pass : Pass) (answer : Answer) : World :=
  let moved := passStep pass.ceiling answer world.store pass.stage
  { world with
    store := { world.store with ops := moved.1 }
    passes := world.passes.set id { pass with stage := moved.2 }
    current := releaseCurrent world.current id pass.stage
    log := { world.log with accepted := world.log.accepted ++ taken pass.stage answer } }

def step (world : World) : Action → Option World
  | .write request fault =>
      let queued := world.queueWrite request fault
      some { queued.1 with calls := world.calls ++ [⟨some (request, queued.2), .called⟩] }
  | .record request fault => some (world.queueWrite request fault).1
  | .drain => some { world with calls := world.calls ++ [⟨none, .called⟩] }
  | .bound index =>
      match world.calls[index]? with
      | some ⟨write, .called⟩ =>
          some { world with calls := world.calls.set index ⟨write, .bounded world.store.maxOpId⟩ }
      | _ => none
  | .arrive index =>
      match world.calls[index]? with
      | some ⟨write, .bounded ceiling⟩ =>
          let joined := world.joinOrStart ceiling
          some { joined.1 with calls := world.calls.set index ⟨write, .joined joined.2⟩ }
      | _ => none
  | .resume index queryFails =>
      match world.calls[index]? with
      | some ⟨write, .joined pass⟩ =>
          if world.passFinished pass then
            let left := write.all fun asked => !world.store.hasOp queryFails asked.2
            some { world with calls := world.calls.set index ⟨write, .returned left⟩ }
          else none
      | _ => none
  | .advance id answer =>
      match world.passes[id]? with
      | some pass => if world.mayAdvance pass then some (world.advance id pass answer) else none
      | none => none
  | .kill => some { world with passes := [], current := none, calls := [] }

theorem step_cases (world : World) (action : Action) (next : World)
    (stepped : world.step action = some next) :
    (∃ request fault calls,
      (action = .write request fault ∨ action = .record request fault) ∧
        next = { (world.queueWrite request fault).1 with calls := calls }) ∨
    (∃ calls, action.quiet = true ∧ next = { world with calls := calls }) ∨
    (∃ index write ceiling calls, action = .arrive index ∧
      world.calls[index]? = some ⟨write, .bounded ceiling⟩ ∧
        next = { (world.joinOrStart ceiling).1 with calls := calls }) ∨
    (∃ id answer pass, action = .advance id answer ∧ world.passes[id]? = some pass ∧
      world.mayAdvance pass = true ∧ next = world.advance id pass answer) ∨
    (action = .kill ∧ next = { world with passes := [], current := none, calls := [] }) := by
  cases action with
  | write request fault =>
      exact Or.inl ⟨request, fault, _, Or.inl rfl, (Option.some.inj stepped).symm⟩
  | record request fault =>
      exact Or.inl ⟨request, fault, world.calls, Or.inr rfl,
        (Option.some.inj stepped).symm⟩
  | drain => exact Or.inr (Or.inl ⟨_, rfl, (Option.some.inj stepped).symm⟩)
  | bound index =>
      simp only [step] at stepped
      split at stepped
      · exact Or.inr (Or.inl ⟨_, rfl, (Option.some.inj stepped).symm⟩)
      · cases stepped
  | arrive index =>
      simp only [step] at stepped
      split at stepped
      · rename_i write ceiling found
        exact Or.inr (Or.inr (Or.inl ⟨index, write, ceiling, _, rfl, found,
          (Option.some.inj stepped).symm⟩))
      · cases stepped
  | resume index queryFails =>
      simp only [step] at stepped
      split at stepped
      · split at stepped
        · exact Or.inr (Or.inl ⟨_, rfl, (Option.some.inj stepped).symm⟩)
        · cases stepped
      · cases stepped
  | advance id answer =>
      simp only [step] at stepped
      split at stepped
      · rename_i pass found
        split at stepped
        · rename_i allowed
          exact Or.inr (Or.inr (Or.inr (Or.inl ⟨id, answer, pass, rfl, found, allowed,
            (Option.some.inj stepped).symm⟩)))
        · cases stepped
      · cases stepped
  | kill => exact Or.inr (Or.inr (Or.inr (Or.inr ⟨rfl, (Option.some.inj stepped).symm⟩)))

theorem join_or_start_cases (world : World) (ceiling : Nat) :
    ((world.joinOrStart ceiling).1 = world ∧
        ∃ bound id, world.current = some (bound, id) ∧ ceiling ≤ bound) ∨
      (world.joinOrStart ceiling).1 =
        { world with
          passes := world.passes ++ [⟨ceiling, world.current.map (·.2), .waiting⟩]
          current := some (ceiling, world.passes.length) } := by
  unfold joinOrStart
  cases found : world.current with
  | none => exact Or.inr rfl
  | some slot =>
      obtain ⟨bound, id⟩ := slot
      dsimp only
      split
      · rename_i reaches
        exact Or.inl ⟨rfl, bound, id, rfl, reaches⟩
      · exact Or.inr rfl

end World

end Omnibus.Outbox
