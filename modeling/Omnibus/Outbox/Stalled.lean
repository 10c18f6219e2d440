import Omnibus.Outbox.Passes

/-!
# What a failing kind holds back

A drain pass nothing else interferes with, against a server that answers every request. When
it ends, the ops of its last window stand behind a failure of their own kind, and so do the later
ops of the kinds the window held. An op of another kind beyond the window was never looked at.
-/

namespace Omnibus.Outbox

open Omnibus.Library.Strings
open Omnibus.Library.Runs

structure Solo where
  ops : Ops
  stage : Stage
  failed : List PendingOp
  deriving DecidableEq

/-- The server answered: 2xx, a terminal 4xx or a retryable failure. -/
def Answer.definite : Answer → Bool
  | .response => true
  | .http _ _ => true
  | .failure _ => true
  | _ => false

def failedNow : Stage → List PendingOp
  | .attempted op _ _ => [op]
  | _ => []

namespace Solo

def start (ops : Ops) : Solo := ⟨ops, .sweepNext, []⟩

def step (ceiling : Nat) (solo : Solo) (answer : Answer) : Option Solo :=
  if solo.stage = .finished ∨ answer.definite = false then none
  else
    let moved := passStep ceiling answer ⟨true, solo.ops⟩ solo.stage
    some ⟨moved.1, moved.2, solo.failed ++ failedNow solo.stage⟩

end Solo

/-- Some op of the kind, at or before this one, failed retryably. -/
def BehindFailure (failed : List PendingOp) (op : PendingOp) : Prop :=
  ∃ failure ∈ failed, failure.kind = op.kind ∧ failure.id ≤ op.id

instance (failed : List PendingOp) (op : PendingOp) : Decidable (BehindFailure failed op) :=
  inferInstanceAs (Decidable (∃ failure ∈ failed, failure.kind = op.kind ∧ failure.id ≤ op.id))

/-- Every op the pass leaves behind is behind a failure of its own kind. -/
def HeldByOwnKind (ceiling : Nat) (solo : Solo) : Prop :=
  ∀ row ∈ solo.ops.rows, row.pending = true → row.id ≤ ceiling →
    BehindFailure solo.failed row

/-- A sweep that ends without having retired anything, and so ends the pass, read a window with an
op of every kind that is pending. -/
def WindowReaches (ceiling : Nat) (solo : Solo) (_ : Answer) : Prop :=
  match solo.stage with
  | .visiting sweep =>
      sweep.rest = [] → sweep.retired = 0 →
        ∀ row ∈ solo.ops.rows, row.pending = true → row.id ≤ ceiling →
          ∃ op ∈ sweep.ops, op.kind = row.kind
  | _ => True

instance (ceiling : Nat) (solo : Solo) : Decidable (HeldByOwnKind ceiling solo) := by
  unfold HeldByOwnKind
  infer_instance

instance (ceiling : Nat) (solo : Solo) (answer : Answer) :
    Decidable (WindowReaches ceiling solo answer) := by
  unfold WindowReaches
  cases solo.stage <;> infer_instance

/-- What the sweep has done with its window so far. -/
structure Swept (ceiling : Nat) (solo : Solo) : Prop where
  sorted : solo.stage.inHand.Pairwise fun first second => first.id < second.id
  kinds : ∀ op ∈ solo.stage.window, ∀ row ∈ solo.ops.rows, row.id = op.id → row.kind = op.kind
  hands : ∀ op ∈ solo.stage.inHand, op ∈ solo.stage.window
  beyond : ∀ op ∈ solo.stage.window, ∀ id ∈ pendingIds solo.ops ceiling,
    id ∈ solo.stage.window.map (·.id) ∨ op.id < id
  done : ∀ op ∈ solo.stage.window, op ∈ solo.stage.inHand ∨ 0 < solo.stage.retired ∨
    BehindFailure solo.failed op
  stalled : ∀ kind ∈ solo.stage.stalled, ∃ failure ∈ solo.failed, failure.kind = kind ∧
    ∀ op ∈ solo.stage.inHand, failure.id ≤ op.id
  parked : ∀ op message sweep, solo.stage = .parking op message sweep → op ∈ solo.failed

theorem behind_failure_grows (failed later : List PendingOp) (op : PendingOp)
    (behind : BehindFailure failed op) : BehindFailure (failed ++ later) op := by
  obtain ⟨failure, member, rest⟩ := behind
  exact ⟨failure, List.mem_append_left _ member, rest⟩

theorem swept_without_window (ceiling : Nat) (solo : Solo) (none : solo.stage.sweep? = none) :
    Swept ceiling solo := by
  obtain ⟨ops, stage, failed⟩ := solo
  cases stage with
  | waiting =>
      constructor <;> simp [Stage.inHand, Stage.op?, Stage.sweep?, Stage.window, Stage.stalled]
  | sweepNext =>
      constructor <;> simp [Stage.inHand, Stage.op?, Stage.sweep?, Stage.window, Stage.stalled]
  | drained =>
      constructor <;> simp [Stage.inHand, Stage.op?, Stage.sweep?, Stage.window, Stage.stalled]
  | finished =>
      constructor <;> simp [Stage.inHand, Stage.op?, Stage.sweep?, Stage.window, Stage.stalled]
  | visiting => cases none
  | replaying => cases none
  | accepted => cases none
  | rejected => cases none
  | failing => cases none
  | attempted => cases none
  | parking => cases none

theorem list_ops_beyond (store : OfflineStore) (ceiling : Nat) (op : PendingOp)
    (listed : op ∈ store.listOps ceiling) (id : Nat)
    (isPending : id ∈ pendingIds store.ops ceiling) :
    id ∈ (store.listOps ceiling).map (·.id) ∨ op.id < id := by
  obtain ⟨row, isRow, pending, below, rfl⟩ := (mem_pending_ids _ _ _).mp isPending
  by_cases less : row.id < op.id
  · apply Or.inl
    exact List.mem_map_of_mem (list_ops_earlier store ceiling op row listed isRow pending less)
  · obtain same | after := (not_lt.mp less).eq_or_lt
    · exact Or.inl (List.mem_map.mpr ⟨op, listed, same⟩)
    · exact Or.inr after

/-- A step within a sweep: it keeps the window, and says of each op it lets go of that the sweep
retired something or that the op is behind a failure. -/
theorem swept_within (ceiling : Nat) (solo : Solo) (answer : Answer) (swept : Swept ceiling solo)
    (next : Stage) (_ : (passStep ceiling answer ⟨true, solo.ops⟩ solo.stage).2 = next)
    (window : next.window = solo.stage.window)
    (hand : next.inHand.Sublist solo.stage.inHand) (more : solo.stage.retired ≤ next.retired)
    (lets : ∀ op ∈ solo.stage.inHand, op ∈ next.inHand ∨ 0 < next.retired ∨
      BehindFailure (solo.failed ++ failedNow solo.stage) op)
    (stalls : ∀ kind ∈ next.stalled, kind ∈ solo.stage.stalled ∨
      ∃ failure ∈ solo.failed ++ failedNow solo.stage, failure.kind = kind ∧
        ∀ op ∈ next.inHand, failure.id ≤ op.id)
    (parked : ∀ op message sweep, next = .parking op message sweep →
      op ∈ solo.failed ++ failedNow solo.stage) :
    Swept ceiling ⟨(passStep ceiling answer ⟨true, solo.ops⟩ solo.stage).1, next,
      solo.failed ++ failedNow solo.stage⟩ := by
  have fewer := pending_ids_pass_step ceiling ceiling answer ⟨true, solo.ops⟩ solo.stage
  refine ⟨swept.sorted.sublist hand, ?_, ?_, ?_, ?_, ?_, parked⟩
  · intro op member row isRow same
    obtain ⟨old, isOld, sameRequest, -⟩ := rows_pass_step ceiling answer ⟨true, solo.ops⟩
      solo.stage row isRow
    obtain ⟨oldId, oldKind, -⟩ := PendingOp.request_parts sameRequest
    rw [← oldKind]
    exact swept.kinds op (window ▸ member) old isOld (by omega)
  · intro op member
    rw [window]
    exact swept.hands op (hand.subset member)
  · intro op member id isPending
    rw [window] at member ⊢
    exact swept.beyond op member id (fewer isPending)
  · intro op member
    obtain inHand | some' | behind := swept.done op (window ▸ member)
    · exact lets op inHand
    · exact Or.inr (Or.inl (lt_of_lt_of_le some' more))
    · exact Or.inr (Or.inr (behind_failure_grows _ _ _ behind))
  · intro kind member
    obtain old | new := stalls kind member
    · obtain ⟨failure, isFailure, sameKind, before⟩ := swept.stalled kind old
      exact ⟨failure, List.mem_append_left _ isFailure, sameKind,
        fun op inHand => before op (hand.subset inHand)⟩
    · exact new

theorem after_head (op : PendingOp) (rest : List PendingOp)
    (sorted : (op :: rest).Pairwise fun first second => first.id < second.id) :
    ∀ later ∈ rest, op.id ≤ later.id :=
  fun later member => Nat.le_of_lt ((List.pairwise_cons.mp sorted).1 later member)

theorem swept_visiting (ceiling : Nat) (ops : Ops) (failed : List PendingOp) (answer : Answer)
    (sweep : Sweep)
    (swept : Swept ceiling ⟨ops, .visiting sweep, failed⟩) :
    Swept ceiling ⟨(passStep ceiling answer ⟨true, ops⟩ (.visiting sweep)).1,
      (passStep ceiling answer ⟨true, ops⟩ (.visiting sweep)).2,
      failed ++ failedNow (.visiting sweep)⟩ := by
  obtain ⟨window, rest, retired, stalled⟩ := sweep
  cases rest with
  | nil =>
      dsimp only [passStep, visit]
      split <;> exact swept_without_window _ _ rfl
  | cons op rest =>
      cases isStalled : stalled.contains op.kind with
      | true =>
          have next : visit ⟨window, op :: rest, retired, stalled⟩ =
              .visiting ⟨window, rest, retired, stalled⟩ := by
            simp only [visit, isStalled, if_true]
          dsimp only [passStep]
          rw [next]
          apply swept_within ceiling _ answer swept _ next rfl (List.sublist_cons_self op rest)
            le_rfl
          · intro other member
            obtain rfl | later := List.mem_cons.mp member
            · obtain ⟨failure, isFailure, sameKind, before⟩ :=
                swept.stalled other.kind
                  (by simpa [Stage.stalled, Stage.sweep?] using isStalled)
              exact Or.inr (Or.inr (behind_failure_grows _ _ _
                ⟨failure, isFailure, sameKind, before other List.mem_cons_self⟩))
            · exact Or.inl later
          · exact fun kind member => Or.inl member
          · simp
      | false =>
          have next : visit ⟨window, op :: rest, retired, stalled⟩ =
              .replaying op ⟨window, rest, retired, stalled⟩ := by
            simp only [visit, isStalled, Bool.false_eq_true, if_false]
          dsimp only [passStep]
          rw [next]
          apply swept_within ceiling _ answer swept _ next rfl (List.Sublist.refl _) le_rfl
          · exact fun other member => Or.inl member
          · exact fun kind member => Or.inl member
          · simp

theorem swept_replaying (ceiling : Nat) (ops : Ops) (failed : List PendingOp) (answer : Answer)
    (op : PendingOp) (sweep : Sweep) (definite : ¬answer.definite = false)
    (swept : Swept ceiling ⟨ops, .replaying op sweep, failed⟩) :
    Swept ceiling ⟨(passStep ceiling answer ⟨true, ops⟩ (.replaying op sweep)).1,
      (passStep ceiling answer ⟨true, ops⟩ (.replaying op sweep)).2,
      failed ++ failedNow (.replaying op sweep)⟩ := by
  have notDrained : received op sweep answer ≠ .drained := by
    cases answer with
    | response => simp [received]
    | failure => simp [received]
    | http status message => simp only [received]; split <;> simp
    | unauthorized => exact absurd rfl definite
    | offline => exact absurd rfl definite
    | cancelled => exact absurd rfl definite
  obtain next | next | ⟨detail, next⟩ | ⟨message, next⟩ := received_cases op sweep answer
  · dsimp only [passStep]
    rw [next]
    exact swept_within ceiling _ answer swept _ next rfl (List.Sublist.refl _) le_rfl
      (fun other member => Or.inl member) (fun kind member => Or.inl member) (by simp)
  · exact absurd next notDrained
  · dsimp only [passStep]
    rw [next]
    exact swept_within ceiling _ answer swept _ next rfl (List.Sublist.refl _) le_rfl
      (fun other member => Or.inl member) (fun kind member => Or.inl member) (by simp)
  · dsimp only [passStep]
    rw [next]
    exact swept_within ceiling _ answer swept _ next rfl (List.Sublist.refl _) le_rfl
      (fun other member => Or.inl member) (fun kind member => Or.inl member) (by simp)

theorem swept_rejected (ceiling : Nat) (ops : Ops) (failed : List PendingOp) (answer : Answer)
    (op : PendingOp) (detail : Text) (sweep : Sweep)
    (swept : Swept ceiling ⟨ops, .rejected op detail sweep, failed⟩) :
    Swept ceiling ⟨(passStep ceiling answer ⟨true, ops⟩ (.rejected op detail sweep)).1,
      (passStep ceiling answer ⟨true, ops⟩ (.rejected op detail sweep)).2,
      failed ++ failedNow (.rejected op detail sweep)⟩ := by
  cases isToken : clientToken op with
  | some token =>
      have next : (passStep ceiling answer ⟨true, ops⟩ (.rejected op detail sweep)).2 =
          .failing op token detail sweep := by simp only [passStep, isToken]
      rw [next]
      apply swept_within ceiling _ answer swept _ next rfl (List.Sublist.refl _) le_rfl
      · exact fun other member => Or.inl member
      · exact fun kind member => Or.inl member
      · simp
  | none =>
      have next : (passStep ceiling answer ⟨true, ops⟩ (.rejected op detail sweep)).2 =
          .visiting sweep.retire := by simp only [passStep, isToken]
      rw [next]
      apply swept_within ceiling _ answer swept _ next rfl
        (List.sublist_cons_self op sweep.rest) (Nat.le_succ _)
      · exact fun other member => Or.inr (Or.inl (Nat.succ_pos _))
      · exact fun kind member => Or.inl member
      · simp

theorem swept_attempted (ceiling : Nat) (ops : Ops) (failed : List PendingOp) (answer : Answer)
    (op : PendingOp) (message : Text) (sweep : Sweep)
    (swept : Swept ceiling ⟨ops, .attempted op message sweep, failed⟩) :
    Swept ceiling ⟨(passStep ceiling answer ⟨true, ops⟩ (.attempted op message sweep)).1,
      (passStep ceiling answer ⟨true, ops⟩ (.attempted op message sweep)).2,
      failed ++ failedNow (.attempted op message sweep)⟩ := by
  obtain next | next := attempted_cases ceiling answer ⟨true, ops⟩ op message sweep
  · rw [next]
    apply swept_within ceiling _ answer swept _ next rfl (List.Sublist.refl _) le_rfl
    · exact fun other member => Or.inl member
    · exact fun kind member => Or.inl member
    · intro other text sweep' same
      rw [Stage.parking.injEq] at same
      rw [← same.1]
      exact List.mem_append_right _ (List.mem_singleton_self op)
  · rw [next]
    apply swept_within ceiling _ answer swept _ next rfl (List.sublist_cons_self op sweep.rest)
      le_rfl
    · intro other member
      obtain rfl | later := List.mem_cons.mp member
      · exact Or.inr (Or.inr ⟨other, List.mem_append_right _ (List.mem_singleton_self other),
          rfl, le_rfl⟩)
      · exact Or.inl later
    · intro kind member
      obtain rfl | old := List.mem_cons.mp member
      · exact Or.inr ⟨op, List.mem_append_right _ (List.mem_singleton_self op), rfl,
          after_head op sweep.rest swept.sorted⟩
      · exact Or.inl old
    · simp

theorem swept_parking (ceiling : Nat) (ops : Ops) (failed : List PendingOp) (answer : Answer)
    (op : PendingOp) (message : Text) (sweep : Sweep)
    (swept : Swept ceiling ⟨ops, .parking op message sweep, failed⟩) :
    Swept ceiling ⟨(passStep ceiling answer ⟨true, ops⟩ (.parking op message sweep)).1,
      (passStep ceiling answer ⟨true, ops⟩ (.parking op message sweep)).2,
      failed ++ failedNow (.parking op message sweep)⟩ := by
  have isFailed := swept.parked op message sweep rfl
  apply swept_within ceiling _ answer swept _ rfl rfl (List.sublist_cons_self op sweep.rest)
    le_rfl
  · intro other member
    obtain rfl | later := List.mem_cons.mp member
    · exact Or.inr (Or.inr ⟨other, List.mem_append_left _ isFailed, rfl, le_rfl⟩)
    · exact Or.inl later
  · intro kind member
    obtain rfl | old := List.mem_cons.mp member
    · exact Or.inr ⟨op, List.mem_append_left _ isFailed, rfl,
        after_head op sweep.rest swept.sorted⟩
    · exact Or.inl old
  · simp [passStep]

theorem swept_step (ceiling : Nat) (solo next : Solo) (answer : Answer)
    (swept : Swept ceiling solo) (stepped : solo.step ceiling answer = some next) :
    Swept ceiling next := by
  unfold Solo.step at stepped
  split at stepped
  · cases stepped
  rename_i allowed
  rw [not_or] at allowed
  obtain ⟨unfinished, definite⟩ := allowed
  obtain rfl := Option.some.inj stepped
  obtain ⟨ops, stage, failed⟩ := solo
  cases stage with
  | waiting => exact swept_without_window _ _ rfl
  | drained => exact swept_without_window _ _ rfl
  | finished => exact absurd rfl unfinished
  | sweepNext =>
      dsimp only [passStep]
      split
      · exact swept_without_window _ _ rfl
      · refine ⟨list_ops_sorted ⟨true, ops⟩ ceiling, ?_, fun op member => member, ?_,
          fun op member => Or.inl member, ?_, ?_⟩
        · intro op member row isRow same
          rw [ops.row_unique row op isRow (list_ops_mem ⟨true, ops⟩ ceiling op member).1 same]
        · intro op member id isPending
          exact list_ops_beyond ⟨true, ops⟩ ceiling op member id isPending
        · intro kind member
          cases member
        · intro op message sweep same
          cases same
  | visiting sweep =>
      exact swept_visiting ceiling ops failed answer sweep swept
  | replaying op sweep =>
      exact swept_replaying ceiling ops failed answer op sweep definite swept
  | accepted op sweep =>
      apply swept_within ceiling _ answer swept _ rfl rfl (List.sublist_cons_self op sweep.rest)
        (Nat.le_succ _)
      · exact fun other member => Or.inr (Or.inl (Nat.succ_pos _))
      · exact fun kind member => Or.inl member
      · simp [passStep]
  | rejected op detail sweep =>
      exact swept_rejected ceiling ops failed answer op detail sweep swept
  | failing op token detail sweep =>
      apply swept_within ceiling _ answer swept _ rfl rfl (List.sublist_cons_self op sweep.rest)
        (Nat.le_succ _)
      · exact fun other member => Or.inr (Or.inl (Nat.succ_pos _))
      · exact fun kind member => Or.inl member
      · simp [passStep]
  | attempted op message sweep =>
      exact swept_attempted ceiling ops failed answer op message sweep swept
  | parking op message sweep =>
      exact swept_parking ceiling ops failed answer op message sweep swept

/-- A sweep that retired nothing leaves its window, and what is of its kinds, behind failures. -/
theorem held_at_sweep_end (ceiling : Nat) (solo : Solo) (answer : Answer) (sweep : Sweep)
    (swept : Swept ceiling solo) (stage : solo.stage = .visiting sweep) (ended : sweep.rest = [])
    (none : sweep.retired = 0) (reaches : WindowReaches ceiling solo answer) :
    HeldByOwnKind ceiling solo := by
  intro row isRow pending below
  unfold WindowReaches at reaches
  rw [stage] at reaches
  have failed : ∀ op ∈ sweep.ops, BehindFailure solo.failed op := by
    intro op member
    have isWindow : op ∈ solo.stage.window := by
      rw [stage]
      exact member
    obtain inHand | some' | behind := swept.done op isWindow
    · rw [stage] at inHand
      simp [Stage.inHand, Stage.op?, Stage.sweep?, ended] at inHand
    · rw [stage] at some'
      simp [Stage.retired, Stage.sweep?, none] at some'
    · exact behind
  have isPending := (mem_pending_ids _ _ _).mpr ⟨row, isRow, pending, below, rfl⟩
  obtain ⟨op, member, sameKind⟩ := reaches ended none row isRow pending below
  have isWindow : op ∈ solo.stage.window := by
    rw [stage]
    exact member
  obtain inWindow | less := swept.beyond op isWindow row.id isPending
  · obtain ⟨own, isOwn, same⟩ := List.mem_map.mp inWindow
    have kind := swept.kinds own isOwn row isRow same.symm
    rw [stage] at isOwn
    obtain ⟨failure, isFailure, ownKind, before⟩ := failed own isOwn
    exact ⟨failure, isFailure, ownKind.trans kind.symm, by omega⟩
  · obtain ⟨failure, isFailure, ownKind, before⟩ := failed op member
    exact ⟨failure, isFailure, ownKind.trans sameKind, by omega⟩

theorem held_step (ceiling : Nat) (solo : Solo) (answer : Answer) (next : Solo)
    (invariant : Swept ceiling solo ∧
      (solo.stage = .drained ∨ solo.stage = .finished → HeldByOwnKind ceiling solo))
    (reaches : WindowReaches ceiling solo answer) (stepped : solo.step ceiling answer = some next) :
    Swept ceiling next ∧
      (next.stage = .drained ∨ next.stage = .finished → HeldByOwnKind ceiling next) := by
  obtain ⟨swept, held⟩ := invariant
  refine ⟨swept_step ceiling solo next answer swept stepped, ?_⟩
  unfold Solo.step at stepped
  split at stepped
  · cases stepped
  rename_i allowed
  rw [not_or] at allowed
  obtain rfl := Option.some.inj stepped
  obtain ⟨ops, stage, failed⟩ := solo
  intro ended
  cases stage with
  | drained =>
      have before := held (Or.inl rfl)
      simpa [HeldByOwnKind, passStep, failedNow] using before
  | finished => exact absurd rfl allowed.1
  | sweepNext =>
      dsimp only [passStep] at ended ⊢
      split at ended
      · rename_i empty
        have nonePending : ops.pendingUpTo ceiling = [] := by
          simpa [OfflineStore.listOps, Ops.listOps, Ops.listLimit] using empty
        intro row isRow pending below
        have listed : row ∈ ops.pendingUpTo ceiling := by
          simp only [Ops.pendingUpTo, List.mem_filter, pending, Bool.true_and, decide_eq_true_eq]
          exact ⟨isRow, below⟩
        rw [nonePending] at listed
        cases listed
      · simp at ended
  | visiting sweep =>
      obtain ⟨window, rest, retired, stalled⟩ := sweep
      cases rest with
      | cons op rest =>
          simp only [passStep, visit] at ended
          split at ended <;> simp at ended
      | nil =>
          cases retired with
          | succ count => simp [passStep, visit] at ended
          | zero =>
              have before := held_at_sweep_end ceiling ⟨ops, _, failed⟩ answer _ swept rfl rfl rfl
                reaches
              simpa [HeldByOwnKind, passStep, failedNow] using before
  | replaying op sweep =>
      have definite := allowed.2
      cases answer with
      | response => simp [passStep, received] at ended
      | failure => simp [passStep, received] at ended
      | http status message =>
          simp only [passStep, received] at ended
          split at ended <;> simp at ended
      | unauthorized => exact absurd rfl definite
      | offline => exact absurd rfl definite
      | cancelled => exact absurd rfl definite
  | waiting => simp [passStep] at ended
  | accepted => simp [passStep] at ended
  | rejected => simp only [passStep] at ended; split at ended <;> simp at ended
  | failing => simp [passStep] at ended
  | attempted => simp only [passStep] at ended; split at ended <;> simp at ended
  | parking => simp [passStep] at ended

/-- A finished pass has left behind only what its kinds' own failures hold back, when the sweep
that ended it saw every kind that was pending. -/
theorem stalled_kind_holds_only_its_own (ops : Ops) (ceiling : Nat) (answers : List Answer)
    (last : Solo) (ran : run (Solo.step ceiling) (Solo.start ops) answers = some last)
    (finished : last.stage = .finished)
    (meets : Meets (Solo.step ceiling) (WindowReaches ceiling) (Solo.start ops) answers) :
    HeldByOwnKind ceiling last := by
  have start : Swept ceiling (Solo.start ops) ∧
      ((Solo.start ops).stage = .drained ∨ (Solo.start ops).stage = .finished →
        HeldByOwnKind ceiling (Solo.start ops)) :=
    ⟨swept_without_window _ _ rfl, by simp [Solo.start]⟩
  exact (run_keeps (Solo.step ceiling) (held_step ceiling) answers start meets ran).2
    (Or.inr finished)

def sessionsThenHighlight (count : Nat) : Ops :=
  Ops.insert
    ((List.range count).foldl
      (fun ops _ => ops.insert "session".toList "/api/sessions".toList .post none) Ops.empty)
    "highlight".toList "/api/annotations".toList .post none

def seventhLands : List Answer :=
  List.replicate 6 (Answer.http 500 []) ++ [Answer.response] ++
    List.replicate 9 (Answer.http 500 [])

theorem stalled_kind_holds_only_its_own_sessions :
    ∃ last, run (Solo.step 3) (Solo.start (sessionsThenHighlight 2)) seventhLands = some last ∧
      HeldByOwnKind 3 last := by
  obtain ⟨last, ran⟩ := Option.isSome_iff_exists.mp (show (run (Solo.step 3)
    (Solo.start (sessionsThenHighlight 2)) seventhLands).isSome = true by decide +kernel)
  have stage : (run (Solo.step 3) (Solo.start (sessionsThenHighlight 2)) seventhLands).map
      (·.stage) = some .finished := by decide +kernel
  rw [ran, Option.map_some, Option.some.injEq] at stage
  exact ⟨last, ran, stalled_kind_holds_only_its_own (sessionsThenHighlight 2) 3 seventhLands last
    ran stage (by decide +kernel)⟩

/-- Two hundred failing session reports fill the window, and the highlight behind them is
never sent. -/
theorem highlight_beyond_window :
    ¬∀ (ops : Ops) (ceiling : Nat) (answers : List Answer) (last : Solo),
      run (Solo.step ceiling) (Solo.start ops) answers = some last → last.stage = .finished →
        HeldByOwnKind ceiling last := by
  intro claimed
  let answers : List Answer := List.replicate 205 (.http 500 [])
  obtain ⟨last, ran⟩ := Option.isSome_iff_exists.mp (show (run (Solo.step 201)
    (Solo.start (sessionsThenHighlight 200)) answers).isSome = true by decide +kernel)
  have outcome : (run (Solo.step 201) (Solo.start (sessionsThenHighlight 200)) answers).map
      (fun last => (last.stage, decide (HeldByOwnKind 201 last))) = some (.finished, false) := by
    decide +kernel
  rw [ran, Option.map_some, Option.some.injEq, Prod.mk.injEq] at outcome
  exact of_decide_eq_false outcome.2 (claimed _ 201 answers last ran outcome.1)

end Omnibus.Outbox
