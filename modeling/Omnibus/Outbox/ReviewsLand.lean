import Omnibus.Outbox.Reviews

/-!
# Review writes land as if sent one by one

Along every run of a book's review writes and drains in which no op is held aside, replaying
the queued rows onto the server's review gives the review of every write sent in order. With
an empty queue that is the server's review itself.
-/

namespace Omnibus.Outbox

open Omnibus.Library.Strings
open Omnibus.Library.Runs

def serverReview (uuid : Text) (start : Review) (log : Log) : Review :=
  log.accepted.foldl (opEffect uuid) start

/-- The legacy op first, and then every write in the order it was made. -/
def oneByOne (uuid : Text) (start : Review) (log : Log) : Review :=
  log.queued.foldl (fun review queued => writeEffect uuid review queued.request) start

def Stage.leading : Stage → Option PendingOp
  | .replaying op _ => some op
  | .accepted op _ => some op
  | _ => none

/-- What a pass has in hand of a review queue: rows, the first of them first, or ops that the
rows behind them override. -/
structure HandOk (uuid : Text) (ops : Ops) (review : Review) (ceiling : Nat) (stage : Stage) :
    Prop where
  uniform : ∀ first ∈ stage.inHand, ∀ second ∈ stage.inHand, first.kind = second.kind
  covered : ∀ op ∈ stage.inHand, (∃ row ∈ ops.rows, row.request = op.request) ∨
    ∀ key, Silent uuid op key ∨ ∃ row ∈ ops.rows, ceiling < row.id ∧ Overrides uuid row key
  heads : ∀ op ∈ stage.inHand, op.kind ∉ stage.stalled → ∀ row ∈ ops.rows, row.id < op.id →
    ∃ other ∈ stage.inHand, other.id = row.id
  below : ∀ op ∈ stage.inHand, op.id ≤ ceiling
  lead : ∀ op, stage.leading = some op → ∀ row ∈ ops.rows, ¬row.id < op.id
  taken : ∀ op sweep, stage = .accepted op sweep → opEffect uuid review op = review
  notFailing : ∀ op token detail sweep, stage ≠ .failing op token detail sweep

theorem hand_of_empty (uuid : Text) (ops : Ops) (review : Review) (ceiling : Nat) (stage : Stage)
    (empty : stage.inHand = []) : HandOk uuid ops review ceiling stage := by
  have noOp : stage.op? = none := by
    cases found : stage.op? with
    | none => rfl
    | some op => simp [Stage.inHand, found] at empty
  refine ⟨by simp [empty], by simp [empty], by simp [empty], by simp [empty], ?_, ?_, ?_⟩
  · intro op leads
    cases stage with
    | replaying => cases noOp
    | accepted => cases noOp
    | _ => cases leads
  · intro op sweep equal
    subst equal
    cases noOp
  · intro op token detail sweep equal
    subst equal
    cases noOp

theorem silent_congr (uuid : Text) (first second : PendingOp) (key : Text)
    (same : first.request = second.request) (silent : Silent uuid first key) :
    Silent uuid second key := by
  intro review
  rw [← op_effect_congr uuid first second review same]
  exact silent review

theorem overrides_congr (uuid : Text) (first second : PendingOp) (key : Text)
    (same : first.request = second.request) (overrides : Overrides uuid first key) :
    Overrides uuid second key := by
  intro one two
  rw [← op_effect_congr uuid first second one same, ← op_effect_congr uuid first second two same]
  exact overrides one two

theorem not_silent_of_overrides (uuid : Text) (op : PendingOp) (key : Text)
    (overrides : Overrides uuid op key) : ¬Silent uuid op key := by
  intro silent
  have same := overrides (fun _ => .null) (fun _ => .bool true)
  rw [silent, silent] at same
  cases same

/-- The hand after a step of the pass that keeps rows but for ones it no longer holds. -/
theorem hand_next (uuid : Text) (before after : Ops) (review later : Review) (ceiling : Nat)
    (stage next : Stage) (hand : HandOk uuid before review ceiling stage)
    (fewer : next.inHand.Sublist stage.inHand) (stalls : stage.stalled ⊆ next.stalled)
    (stays : ∀ row ∈ before.rows, (∃ kept ∈ after.rows, kept.request = row.request) ∨
      row.id ≤ ceiling ∧ ∀ op ∈ next.inHand, op.id ≠ row.id)
    (came : ∀ row ∈ after.rows, ∃ old ∈ before.rows, old.request = row.request)
    (lets : ∀ op ∈ stage.inHand, op ∈ next.inHand ∨ op.kind ∈ next.stalled ∨
      ∀ row ∈ after.rows, row.id ≠ op.id)
    (lead : ∀ op, next.leading = some op → ∀ row ∈ after.rows, ¬row.id < op.id)
    (taken : ∀ op sweep, next = .accepted op sweep → opEffect uuid later op = later)
    (notFailing : ∀ op token detail sweep, next ≠ .failing op token detail sweep) :
    HandOk uuid after later ceiling next := by
  refine ⟨?_, ?_, ?_, ?_, lead, taken, notFailing⟩
  · intro first isFirst second isSecond
    exact hand.uniform first (fewer.subset isFirst) second (fewer.subset isSecond)
  · intro op inHand
    obtain ⟨row, isRow, same⟩ | covers := hand.covered op (fewer.subset inHand)
    · obtain ⟨kept, isKept, sameKept⟩ | ⟨-, apart⟩ := stays row isRow
      · exact Or.inl ⟨kept, isKept, sameKept.trans same⟩
      · exact absurd (PendingOp.request_parts same).1.symm (apart op inHand)
    · apply Or.inr
      intro key
      apply (covers key).imp_right
      intro ⟨row, isRow, above, overrides⟩
      obtain ⟨kept, isKept, sameKept⟩ | ⟨under, -⟩ := stays row isRow
      · refine ⟨kept, isKept, ?_, overrides_congr uuid row kept key sameKept.symm overrides⟩
        rw [(PendingOp.request_parts sameKept).1]
        exact above
      · omega
  · intro op inHand free row isRow less
    obtain ⟨old, isOld, same⟩ := came row isRow
    have sameId := (PendingOp.request_parts same).1
    have wasFree : op.kind ∉ stage.stalled := fun was => free (stalls was)
    obtain ⟨other, isOther, otherId⟩ := hand.heads op (fewer.subset inHand) wasFree old isOld
      (by omega)
    obtain still | stalled | gone := lets other isOther
    · exact ⟨other, still, by omega⟩
    · rw [hand.uniform other isOther op (fewer.subset inHand)] at stalled
      exact absurd stalled free
    · exact absurd (sameId.symm.trans otherId.symm) (gone row isRow)
  · intro op inHand
    exact hand.below op (fewer.subset inHand)

theorem hand_same_rows (uuid : Text) (ops : Ops) (review later : Review) (ceiling : Nat)
    (stage next : Stage) (hand : HandOk uuid ops review ceiling stage)
    (fewer : next.inHand.Sublist stage.inHand) (stalls : stage.stalled ⊆ next.stalled)
    (lets : ∀ op ∈ stage.inHand, op ∈ next.inHand ∨ op.kind ∈ next.stalled)
    (lead : ∀ op, next.leading = some op → ∀ row ∈ ops.rows, ¬row.id < op.id)
    (taken : ∀ op sweep, next = .accepted op sweep → opEffect uuid later op = later)
    (notFailing : ∀ op token detail sweep, next ≠ .failing op token detail sweep) :
    HandOk uuid ops later ceiling next :=
  hand_next uuid ops ops review later ceiling stage next hand fewer stalls
    (fun row isRow => Or.inl ⟨row, isRow, rfl⟩) (fun row isRow => ⟨row, isRow, rfl⟩)
    (fun op inHand => (lets op inHand).imp_right Or.inl) lead taken notFailing

/-- The leading op is the first row or overridden, so applying it once more changes nothing. -/
theorem replay_absorbs (uuid : Text) (ops : Ops) (review : Review) (ceiling : Nat)
    (stage : Stage) (op : PendingOp) (hand : HandOk uuid ops review ceiling stage)
    (inHand : op ∈ stage.inHand) (leads : stage.leading = some op) (from' : Review) :
    ops.rows.foldl (opEffect uuid) (opEffect uuid from' op) =
      ops.rows.foldl (opEffect uuid) from' := by
  obtain ⟨row, isRow, same⟩ | covers := hand.covered op inHand
  · have sameId := (PendingOp.request_parts same).1
    have ordered := ops.ordered
    cases rows : ops.rows with
    | nil => simp [rows] at isRow
    | cons first rest =>
        rw [rows] at isRow ordered
        have isFirst : row = first := by
          obtain here | later := List.mem_cons.mp isRow
          · exact here
          · have less := (List.pairwise_cons.mp ordered).1 row later
            have notBelow := hand.lead op leads first (by simp [rows])
            omega
        subst isFirst
        rw [List.foldl_cons, List.foldl_cons, op_effect_congr uuid row op _ same,
          op_effect_congr uuid row op _ same, op_effect_idem]
  · funext key
    apply replay_agrees
    obtain silent | ⟨row, isRow, -, overrides⟩ := covers key
    · exact Or.inl (silent from')
    · exact Or.inr ⟨row, isRow, overrides⟩

theorem replay_deleted (uuid : Text) (ops : Ops) (review : Review) (ceiling : Nat)
    (stage : Stage) (op : PendingOp) (hand : HandOk uuid ops review ceiling stage)
    (leads : stage.leading = some op) (applied : opEffect uuid review op = review)
    (sameRequest : ∀ row ∈ ops.rows, row.id = op.id → row.request = op.request) :
    (ops.deleteOps [op.id]).rows.foldl (opEffect uuid) review =
      ops.rows.foldl (opEffect uuid) review := by
  simp only [Ops.deleteOps, Ops.deleteWhere]
  have ordered := ops.ordered
  have first := hand.lead op leads
  cases rows : ops.rows with
  | nil => rfl
  | cons row rest =>
      rw [rows] at ordered first sameRequest
      have above (other : PendingOp) (member : other ∈ rest) : other.id ≠ op.id := by
        have less := (List.pairwise_cons.mp ordered).1 other member
        have notBelow := first row List.mem_cons_self
        omega
      have restKept : (rest.filter fun row => !(List.contains [op.id] row.id)) = rest := by
        rw [List.filter_eq_self]
        intro other member
        simp [above other member]
      by_cases here : row.id = op.id
      · rw [List.filter_cons_of_neg (by simp [here]), restKept, List.foldl_cons,
          op_effect_congr uuid row op review (sameRequest row List.mem_cons_self here), applied]
      · rw [List.filter_cons_of_pos (by simp [here]), restKept]

def Stage.holdsAside : Stage → Bool
  | .rejected _ _ _ => true
  | .parking _ _ _ => true
  | _ => false

/-- A book's review queue, replayed onto the server's review, gives the writes one by one. -/
structure QueueStep (uuid : Text) (before after : Ops) (review later : Review) : Prop where
  queue : ReviewQueue uuid after.rows
  replay : after.rows.foldl (opEffect uuid) later = before.rows.foldl (opEffect uuid) review

theorem review_kind (uuid : Text) (rows : List PendingOp) (queue : ReviewQueue uuid rows)
    (first second : PendingOp) (isFirst : first ∈ rows) (isSecond : second ∈ rows) :
    first.kind = second.kind := by
  obtain ⟨legacy, rfl, -⟩ | reviews := queue
  · rw [List.mem_singleton.mp isFirst, List.mem_singleton.mp isSecond]
  · rw [(reviews first isFirst).1, (reviews second isSecond).1]

theorem hand_sweep_next (uuid : Text) (ops : Ops) (later : Review) (ceiling : Nat)
    (queue : ReviewQueue uuid ops.rows) (allPending : ∀ row ∈ ops.rows, row.pending = true) :
    HandOk uuid ops later ceiling (passStep ceiling .offline ⟨true, ops⟩ .sweepNext).2 := by
  simp only [passStep]
  split
  · exact hand_of_empty uuid ops later ceiling _ rfl
  · have listed := fun op => list_ops_mem ⟨true, ops⟩ ceiling op
    refine ⟨?_, ?_, ?_, ?_, ?_, ?_, ?_⟩
    · intro first isFirst second isSecond
      exact review_kind uuid ops.rows queue first second (listed first isFirst).1
        (listed second isSecond).1
    · intro op inHand
      exact Or.inl ⟨op, (listed op inHand).1, rfl⟩
    · intro op inHand _ row isRow less
      exact ⟨row, list_ops_earlier ⟨true, ops⟩ ceiling op row inHand isRow
        (allPending row isRow) less, rfl⟩
    · intro op inHand
      exact (listed op inHand).2.2
    · intro op leads
      cases leads
    · intro op sweep same
      cases same
    · intro op token detail sweep same
      cases same

theorem all_pending (uuid : Text) (rows : List PendingOp) (queue : ReviewQueue uuid rows) :
    ∀ row ∈ rows, row.pending = true := by
  intro row member
  obtain ⟨legacy, rfl, isLegacy⟩ | reviews := queue
  · rw [List.mem_singleton.mp member]
    exact isLegacy.2.1
  · exact (reviews row member).2.1

theorem note_attempt_rows (ops : Ops) (id : Nat) :
    ∃ update : PendingOp → PendingOp, (ops.noteOpAttempt id).1.rows = ops.rows.map update ∧
      ∀ row, (update row).request = row.request ∧ (update row).pending = row.pending := by
  refine ⟨_, rfl, ?_⟩
  intro row
  constructor
  · dsimp only
    split <;> rfl
  · dsimp only
    split <;> rfl

theorem queue_map (uuid : Text) (rows : List PendingOp) (update : PendingOp → PendingOp)
    (same : ∀ row, (update row).request = row.request ∧ (update row).pending = row.pending)
    (queue : ReviewQueue uuid rows) : ReviewQueue uuid (rows.map update) := by
  obtain ⟨legacy, rfl, kind, pending, stars⟩ | reviews := queue
  · obtain ⟨-, sameKind, -, sameMethod, sameBody⟩ := PendingOp.request_parts (same legacy).1
    refine Or.inl ⟨update legacy, rfl, sameKind.trans kind, (same legacy).2.trans pending, ?_⟩
    rw [sameMethod, sameBody]
    exact stars
  · apply Or.inr
    intro row member
    obtain ⟨old, isOld, rfl⟩ := List.mem_map.mp member
    obtain ⟨kind, pending, shape⟩ := reviews old isOld
    obtain ⟨-, sameKind, samePath, sameMethod, sameBody⟩ := PendingOp.request_parts (same old).1
    refine ⟨sameKind.trans kind, (same old).2.trans pending, ?_⟩
    rw [sameMethod, samePath, sameBody]
    exact shape

theorem review_visiting (uuid : Text) (ops : Ops) (review : Review) (ceiling : Nat)
    (answer : Answer) (sweep : Sweep) (queue : ReviewQueue uuid ops.rows)
    (hand : HandOk uuid ops review ceiling (.visiting sweep))
    (sorted : (Stage.visiting sweep).inHand.Pairwise fun first second => first.id < second.id) :
    QueueStep uuid ops (passStep ceiling answer ⟨true, ops⟩ (.visiting sweep)).1 review
        ((World.taken (.visiting sweep) answer).foldl (opEffect uuid) review) ∧
      HandOk uuid (passStep ceiling answer ⟨true, ops⟩ (.visiting sweep)).1
        ((World.taken (.visiting sweep) answer).foldl (opEffect uuid) review) ceiling
        (passStep ceiling answer ⟨true, ops⟩ (.visiting sweep)).2 := by
  have same : QueueStep uuid ops ops review review := ⟨queue, rfl⟩
  refine ⟨same, ?_⟩
  obtain ⟨window, rest, retired, stalled⟩ := sweep
  cases rest with
  | nil =>
      apply hand_of_empty
      dsimp only [passStep, visit]
      split <;> rfl
  | cons op rest =>
      cases isStalled : stalled.contains op.kind with
      | true =>
          have next : (passStep ceiling answer ⟨true, ops⟩
              (.visiting ⟨window, op :: rest, retired, stalled⟩)).2 =
                .visiting ⟨window, rest, retired, stalled⟩ := by
            simp only [passStep, visit, isStalled, if_true]
          rw [next]
          refine hand_same_rows uuid ops review review ceiling _ _ hand ?_ ?_ ?_
            (by simp [Stage.leading]) (by simp) (by simp)
          · exact List.sublist_cons_self op rest
          · exact List.Subset.refl _
          · intro other member
            obtain rfl | later := List.mem_cons.mp member
            · apply Or.inr
              change other.kind ∈ stalled
              simpa using isStalled
            · exact Or.inl later
      | false =>
          have next : (passStep ceiling answer ⟨true, ops⟩
              (.visiting ⟨window, op :: rest, retired, stalled⟩)).2 =
                .replaying op ⟨window, rest, retired, stalled⟩ := by
            simp only [passStep, visit, isStalled, Bool.false_eq_true, if_false]
          rw [next]
          refine hand_same_rows uuid ops review review ceiling _ _ hand ?_ ?_
            (fun other member => Or.inl member) ?_ (by simp) (by simp)
          · exact List.Sublist.refl _
          · exact List.Subset.refl _
          · -- The head is not stalled, so a row before it would be in hand before it.
            intro other leads row isRow less
            obtain rfl := Option.some.inj leads
            have notStalled : op.kind ∉ stalled := by simpa using isStalled
            obtain ⟨before, inHand, sameId⟩ := hand.heads op List.mem_cons_self notStalled row
              isRow less
            obtain rfl | later := List.mem_cons.mp inHand
            · omega
            · have above := (List.pairwise_cons.mp sorted).1 before later
              omega

theorem review_replaying (uuid : Text) (ops : Ops) (review : Review) (ceiling : Nat)
    (answer : Answer) (op : PendingOp) (sweep : Sweep) (queue : ReviewQueue uuid ops.rows)
    (hand : HandOk uuid ops review ceiling (.replaying op sweep)) :
    QueueStep uuid ops (passStep ceiling answer ⟨true, ops⟩ (.replaying op sweep)).1 review
        ((World.taken (.replaying op sweep) answer).foldl (opEffect uuid) review) ∧
      HandOk uuid (passStep ceiling answer ⟨true, ops⟩ (.replaying op sweep)).1
        ((World.taken (.replaying op sweep) answer).foldl (opEffect uuid) review) ceiling
        (passStep ceiling answer ⟨true, ops⟩ (.replaying op sweep)).2 := by
  have same : QueueStep uuid ops ops review review := ⟨queue, rfl⟩
  have head : op ∈ (Stage.replaying op sweep).inHand := List.mem_cons_self
  have waits (next : Stage) (inHand : next.inHand = (Stage.replaying op sweep).inHand)
      (stalls : next.stalled = (Stage.replaying op sweep).stalled)
      (leads : next.leading = none)
      (notFailing : ∀ op token detail sweep, next ≠ .failing op token detail sweep) :
      HandOk uuid ops review ceiling next := by
    apply hand_same_rows uuid ops review review ceiling _ next hand
    · rw [inHand]
    · rw [stalls]
      exact List.Subset.refl _
    · intro other member
      exact Or.inl (inHand ▸ member)
    · intro other isLeading
      rw [leads] at isLeading
      cases isLeading
    · intro other sweep' equal
      subst equal
      cases leads
    · exact notFailing
  cases answer with
  | response =>
      refine ⟨⟨queue, replay_absorbs uuid ops review ceiling _ op hand head rfl review⟩, ?_⟩
      refine hand_same_rows uuid ops review _ ceiling _ _ hand ?_ ?_
        (fun other member => Or.inl member) ?_ ?_ ?_
      · exact List.Sublist.refl _
      · exact List.Subset.refl _
      · intro other leads
        exact hand.lead other leads
      · intro other sweep' isAccepted
        simp only [passStep, received, Stage.accepted.injEq] at isAccepted
        rw [← isAccepted.1]
        exact op_effect_idem uuid op review
      · simp [passStep, received]
  | unauthorized => exact ⟨same, hand_of_empty uuid ops review ceiling _ rfl⟩
  | offline => exact ⟨same, hand_of_empty uuid ops review ceiling _ rfl⟩
  | cancelled => exact ⟨same, hand_of_empty uuid ops review ceiling _ rfl⟩
  | failure message => exact ⟨same, waits _ rfl rfl rfl (by simp [passStep, received])⟩
  | http status message =>
      refine ⟨same, ?_⟩
      cases terminal : isTerminalRejection status with
      | true =>
          simp only [passStep, received, terminal, if_true]
          exact waits _ rfl rfl rfl (by simp)
      | false =>
          simp only [passStep, received, terminal, Bool.false_eq_true, if_false]
          exact waits _ rfl rfl rfl (by simp)

theorem review_accepted (uuid : Text) (ops : Ops) (review : Review) (ceiling : Nat)
    (answer : Answer) (op : PendingOp) (sweep : Sweep) (queue : ReviewQueue uuid ops.rows)
    (hand : HandOk uuid ops review ceiling (.accepted op sweep))
    (sorted : (Stage.accepted op sweep).inHand.Pairwise fun first second => first.id < second.id)
    (sameRow : ∀ other ∈ (Stage.accepted op sweep).inHand, ∀ row ∈ ops.rows, row.id = other.id →
      row.request = other.request) :
    QueueStep uuid ops (passStep ceiling answer ⟨true, ops⟩ (.accepted op sweep)).1 review
        ((World.taken (.accepted op sweep) answer).foldl (opEffect uuid) review) ∧
      HandOk uuid (passStep ceiling answer ⟨true, ops⟩ (.accepted op sweep)).1
        ((World.taken (.accepted op sweep) answer).foldl (opEffect uuid) review) ceiling
        (passStep ceiling answer ⟨true, ops⟩ (.accepted op sweep)).2 := by
  have head : op ∈ (Stage.accepted op sweep).inHand := List.mem_cons_self
  have applied := hand.taken op sweep rfl
  have rest := (List.pairwise_cons.mp sorted).1
  refine ⟨⟨?_, ?_⟩, ?_⟩
  · obtain ⟨legacy, rows, isLegacy⟩ | reviews := queue
    · by_cases here : legacy.id = op.id
      · apply Or.inr
        intro row member
        have kept := List.mem_filter.mp member
        rw [rows, List.mem_singleton] at kept
        simp [kept.1, here] at kept
      · apply Or.inl
        refine ⟨legacy, ?_, isLegacy⟩
        change (ops.deleteOps [op.id]).rows = [legacy]
        simp [Ops.deleteOps, Ops.deleteWhere, rows, here]
    · exact Or.inr fun row member => reviews row (List.mem_of_mem_filter member)
  · exact replay_deleted uuid ops review ceiling _ op hand rfl applied (sameRow op head)
  · refine hand_next uuid ops _ review _ ceiling _ _ hand ?_ ?_ ?_ ?_ ?_ ?_ ?_ ?_
    · exact List.sublist_cons_self op sweep.rest
    · exact List.Subset.refl _
    · intro row isRow
      by_cases here : row.id = op.id
      · apply Or.inr
        refine ⟨here ▸ hand.below op head, ?_⟩
        intro other member
        have above := rest other member
        omega
      · apply Or.inl
        refine ⟨row, ?_, rfl⟩
        simp only [passStep, Ops.deleteOps, Ops.deleteWhere, List.mem_filter]
        exact ⟨isRow, by simp [here]⟩
    · intro row member
      exact ⟨row, List.mem_of_mem_filter member, rfl⟩
    · intro other member
      obtain rfl | later := List.mem_cons.mp member
      · apply Or.inr
        apply Or.inr
        intro row isRow sameId
        have kept := (List.mem_filter.mp isRow).2
        simp [sameId] at kept
      · exact Or.inl later
    · simp [passStep, Stage.leading]
    · simp [passStep]
    · simp [passStep]

theorem review_attempted (uuid : Text) (ops : Ops) (review : Review) (ceiling : Nat)
    (answer : Answer) (op : PendingOp) (message : Text) (sweep : Sweep)
    (queue : ReviewQueue uuid ops.rows)
    (hand : HandOk uuid ops review ceiling (.attempted op message sweep)) :
    QueueStep uuid ops (passStep ceiling answer ⟨true, ops⟩ (.attempted op message sweep)).1 review
        ((World.taken (.attempted op message sweep) answer).foldl (opEffect uuid) review) ∧
      HandOk uuid (passStep ceiling answer ⟨true, ops⟩ (.attempted op message sweep)).1
        ((World.taken (.attempted op message sweep) answer).foldl (opEffect uuid) review) ceiling
        (passStep ceiling answer ⟨true, ops⟩ (.attempted op message sweep)).2 := by
  obtain ⟨update, rows, keepsRequest⟩ := note_attempt_rows ops op.id
  refine ⟨⟨?_, ?_⟩, ?_⟩
  · change ReviewQueue uuid (ops.noteOpAttempt op.id).1.rows
    rw [rows]
    exact queue_map uuid ops.rows update keepsRequest queue
  · change (ops.noteOpAttempt op.id).1.rows.foldl (opEffect uuid) review = _
    rw [rows, replay_map uuid ops.rows update (fun row => (keepsRequest row).1)]
  · have stays (row : PendingOp) (isRow : row ∈ ops.rows) :
        ∃ kept ∈ (ops.noteOpAttempt op.id).1.rows, kept.request = row.request := by
      rw [rows]
      exact ⟨update row, List.mem_map_of_mem isRow, (keepsRequest row).1⟩
    have came (row : PendingOp) (isRow : row ∈ (ops.noteOpAttempt op.id).1.rows) :
        ∃ old ∈ ops.rows, old.request = row.request := by
      rw [rows] at isRow
      obtain ⟨old, isOld, rfl⟩ := List.mem_map.mp isRow
      exact ⟨old, isOld, (keepsRequest old).1.symm⟩
    obtain next | next := attempted_cases ceiling answer ⟨true, ops⟩ op message sweep
    · rw [next]
      refine hand_next uuid ops _ review _ ceiling _ _ hand ?_ ?_
        (fun row isRow => Or.inl (stays row isRow)) came (fun other member => Or.inl member)
        (by simp [Stage.leading]) (by simp) (by simp)
      · exact List.Sublist.refl _
      · exact List.Subset.refl _
    · rw [next]
      refine hand_next uuid ops _ review _ ceiling _ _ hand ?_ ?_
        (fun row isRow => Or.inl (stays row isRow)) came ?_ (by simp [Stage.leading]) (by simp)
        (by simp)
      · exact List.sublist_cons_self op sweep.rest
      · exact List.subset_cons_self _ _
      · intro other member
        obtain rfl | later := List.mem_cons.mp member
        · exact Or.inr (Or.inl List.mem_cons_self)
        · exact Or.inl later

theorem review_pass_step (uuid : Text) (ops : Ops) (review : Review) (ceiling : Nat)
    (answer : Answer) (stage : Stage) (queue : ReviewQueue uuid ops.rows)
    (hand : HandOk uuid ops review ceiling stage)
    (sorted : stage.inHand.Pairwise fun first second => first.id < second.id)
    (sameRow : ∀ op ∈ stage.inHand, ∀ row ∈ ops.rows, row.id = op.id → row.request = op.request)
    (keeps : stage.holdsAside = false) :
    QueueStep uuid ops (passStep ceiling answer ⟨true, ops⟩ stage).1 review
        ((World.taken stage answer).foldl (opEffect uuid) review) ∧
      HandOk uuid (passStep ceiling answer ⟨true, ops⟩ stage).1
        ((World.taken stage answer).foldl (opEffect uuid) review) ceiling
        (passStep ceiling answer ⟨true, ops⟩ stage).2 := by
  have same : QueueStep uuid ops ops review review := ⟨queue, rfl⟩
  cases stage with
  | waiting => exact ⟨same, hand_of_empty uuid ops review ceiling _ rfl⟩
  | drained => exact ⟨same, hand_of_empty uuid ops review ceiling _ rfl⟩
  | finished => exact ⟨same, hand_of_empty uuid ops review ceiling _ rfl⟩
  | sweepNext =>
      exact ⟨same, hand_sweep_next uuid ops review ceiling queue
        (all_pending uuid ops.rows queue)⟩
  | rejected => cases keeps
  | parking => cases keeps
  | failing op token detail sweep => exact absurd rfl (hand.notFailing op token detail sweep)
  | visiting sweep =>
      exact review_visiting uuid ops review ceiling answer sweep queue hand sorted
  | replaying op sweep =>
      exact review_replaying uuid ops review ceiling answer op sweep queue hand
  | accepted op sweep =>
      exact review_accepted uuid ops review ceiling answer op sweep queue hand sorted sameRow
  | attempted op message sweep =>
      exact review_attempted uuid ops review ceiling answer op message sweep queue hand

/-- Review writes of the book only, statements that succeed, and no op held aside. -/
def ReviewStep (uuid : Text) (world : World) : Action → Prop
  | .write request fault => IsReviewWrite uuid request ∧ fault = .none
  | .record request fault => IsReviewWrite uuid request ∧ fault = .none
  | .advance id _ => ∀ pass ∈ world.passes[id]?, pass.stage.holdsAside = false
  | _ => True

instance (uuid : Text) (request : Write) : Decidable (IsReviewWrite uuid request) :=
  match request with
  | .whole kind path method body coalesce superseding =>
      decidable_of_iff (Write.whole kind path method body coalesce superseding = deleteReview uuid)
        (by simp [IsReviewWrite, patchReview])
  | .fieldPatch kind path (.object fields) legacyStars =>
      decidable_of_iff (kind = reviewKind uuid ∧ path = reviewPath uuid ∧
        legacyStars = some (ratingKind uuid)) (by simp [IsReviewWrite, patchReview, deleteReview])
  | .fieldPatch _ _ (.other _) _ => isFalse (by simp [IsReviewWrite, patchReview, deleteReview])

instance (uuid : Text) (world : World) (action : Action) :
    Decidable (ReviewStep uuid world action) :=
  match action with
  | .write request fault =>
      inferInstanceAs (Decidable (IsReviewWrite uuid request ∧ fault = .none))
  | .record request fault =>
      inferInstanceAs (Decidable (IsReviewWrite uuid request ∧ fault = .none))
  | .advance id _ =>
      inferInstanceAs (Decidable (∀ pass ∈ world.passes[id]?, pass.stage.holdsAside = false))
  | .drain => isTrue trivial
  | .bound _ => isTrue trivial
  | .arrive _ => isTrue trivial
  | .resume _ _ => isTrue trivial
  | .kill => isTrue trivial

structure Replays (uuid : Text) (start : Review) (world : World) : Prop where
  opened : world.store.isOpen = true
  queue : ReviewQueue uuid world.store.ops.rows
  replay : world.store.ops.rows.foldl (opEffect uuid) (serverReview uuid start world.log) =
    oneByOne uuid start world.log
  hands : ∀ pass ∈ world.passes,
    HandOk uuid world.store.ops (serverReview uuid start world.log) pass.ceiling pass.stage

theorem queue_write_review (uuid : Text) (world : World) (request : Write)
    (opened : world.store.isOpen = true) (isReview : IsReviewWrite uuid request)
    (queue : ReviewQueue uuid world.store.ops.rows) :
    Folds uuid world.store.ops (world.queueWrite request .none).1.store.ops request ∧
      (world.queueWrite request .none).1.store.isOpen = true ∧
      ∃ new, (world.queueWrite request .none).1.log.queued =
        world.log.queued ++ [⟨new, request⟩] := by
  have store : world.store = ⟨true, world.store.ops⟩ := by rw [← opened]
  have folds := folds_write uuid world.store.ops request isReview queue
  rw [← store] at folds
  obtain ⟨-, -, closed | failed⟩ | inserted := queue_write_cases world request .none
  · rw [opened] at closed
    cases closed
  · exact absurd rfl failed
  refine ⟨folds, inserted.sameOpen.trans opened, ?_⟩
  obtain ⟨kept, new, rows, newId, among, -⟩ := folds.rows
  refine ⟨new, ?_⟩
  have fresh : (world.store.queue .none request).2 = world.store.ops.seq + 1 := inserted.fresh
  have only : ((world.store.queue .none request).1.ops.rows.filter fun row =>
      decide (row.id = (world.store.queue .none request).2)) = [new] := by
    rw [rows, fresh, List.filter_append]
    have noOld : (kept.filter fun row => decide (row.id = world.store.ops.seq + 1)) = [] := by
      rw [List.filter_eq_nil_iff]
      intro row member
      have bounded := (world.store.ops.given row (among member)).2
      simp only [decide_eq_true_eq]
      omega
    simp [noOld, newId]
  simp [World.queueWrite, only]

theorem hand_write (uuid : Text) (before after : Ops) (request : Write) (review : Review)
    (ceiling : Nat) (stage : Stage) (folds : Folds uuid before after request)
    (bounded : ceiling ≤ before.seq) (hand : HandOk uuid before review ceiling stage) :
    HandOk uuid after review ceiling stage := by
  obtain ⟨kept, new, rows, newId, among, gone⟩ := folds.rows
  have old (row : PendingOp) (member : row ∈ after.rows) (below : row.id ≤ ceiling) :
      row ∈ before.rows := by
    rw [rows] at member
    obtain isKept | isNew := List.mem_append.mp member
    · exact among isKept
    · rw [List.mem_singleton.mp isNew] at below
      omega
  have newRow : new ∈ after.rows := by simp [rows]
  refine ⟨hand.uniform, ?_, ?_, hand.below, ?_, hand.taken, hand.notFailing⟩
  · intro op inHand
    obtain ⟨row, isRow, same⟩ | covers := hand.covered op inHand
    · obtain isKept | overridden := gone row isRow
      · exact Or.inl ⟨row, by simp [rows, isKept], same⟩
      · apply Or.inr
        intro key
        apply (overridden key).imp
        · exact silent_congr uuid row op key same
        · exact fun overrides => ⟨new, newRow, by omega, overrides⟩
    · apply Or.inr
      intro key
      apply (covers key).imp_right
      intro ⟨row, isRow, above, overrides⟩
      obtain isKept | overridden := gone row isRow
      · exact ⟨row, by simp [rows, isKept], above, overrides⟩
      · have byNew := (overridden key).resolve_left (not_silent_of_overrides uuid row key overrides)
        exact ⟨new, newRow, by omega, byNew⟩
  · intro op inHand free row isRow less
    have below := hand.below op inHand
    exact hand.heads op inHand free row (old row isRow (by omega)) less
  · intro op leads row isRow less
    have inHand : op ∈ stage.inHand := by
      cases stage with
      | replaying other sweep =>
          rw [← Option.some.inj leads]
          exact List.mem_cons_self
      | accepted other sweep =>
          rw [← Option.some.inj leads]
          exact List.mem_cons_self
      | _ => cases leads
    have below := hand.below op inHand
    exact hand.lead op leads row (old row isRow (by omega)) less

def writesOf (actions : List Action) : List Write :=
  actions.filterMap fun
    | .write request _ => some request
    | .record request _ => some request
    | _ => none

def Landing (uuid : Text) (start : Review) (world : World) : Prop :=
  Ordered world ∧ Chained world ∧ Bounded world ∧ Replays uuid start world

theorem replays_step (uuid : Text) (start : Review) (world : World) (action : Action)
    (next : World) (landing : Landing uuid start world) (allowed : ReviewStep uuid world action)
    (stepped : world.step action = some next) :
    Replays uuid start next ∧ oneByOne uuid start next.log =
      (writesOf [action]).foldl (writeEffect uuid) (oneByOne uuid start world.log) := by
  obtain ⟨ordered, chained, bounded, replays⟩ := landing
  obtain ⟨request, fault, calls, isWrite, rfl⟩ | ⟨calls, quiet, rfl⟩ |
    ⟨_, _, ceiling, calls, isArrive, -, rfl⟩ | ⟨id, answer, pass, isAdvance, found, -, rfl⟩ |
    ⟨isKill, rfl⟩ := world.step_cases action next stepped
  · obtain ⟨isReview, rfl⟩ : IsReviewWrite uuid request ∧ fault = .none := by
      obtain rfl | rfl := isWrite <;> exact allowed
    have writes : writesOf [action] = [request] := by
      obtain rfl | rfl := isWrite <;> rfl
    obtain ⟨folds, opened, new, queued⟩ := queue_write_review uuid world request replays.opened
      isReview replays.queue
    have sent : oneByOne uuid start (world.queueWrite request .none).1.log =
        writeEffect uuid (oneByOne uuid start world.log) request := by
      rw [oneByOne, queued, List.foldl_append]
      rfl
    have sameServer : serverReview uuid start (world.queueWrite request .none).1.log =
        serverReview uuid start world.log := rfl
    refine ⟨⟨opened, folds.queue, ?_, ?_⟩, by rw [writes]; exact sent⟩
    · dsimp only
      rw [sent, sameServer, folds.replay, replays.replay]
    · intro pass isPass
      exact hand_write uuid world.store.ops _ request _ pass.ceiling pass.stage folds
        (bounded.ceilings pass isPass) (replays.hands pass isPass)
  · refine ⟨⟨replays.opened, replays.queue, replays.replay, replays.hands⟩, ?_⟩
    cases action with
    | drain => rfl
    | bound => rfl
    | resume => rfl
    | _ => cases quiet
  · subst isArrive
    obtain ⟨same, -⟩ | started := world.join_or_start_cases ceiling
    · rw [same]
      exact ⟨⟨replays.opened, replays.queue, replays.replay, replays.hands⟩, rfl⟩
    · rw [started]
      refine ⟨⟨replays.opened, replays.queue, replays.replay, ?_⟩, rfl⟩
      intro pass isPass
      obtain old | new := List.mem_append.mp isPass
      · exact replays.hands pass old
      · rw [List.mem_singleton.mp new]
        exact hand_of_empty _ _ _ _ _ rfl
  · subst isAdvance
    have isPass : pass ∈ world.passes := List.mem_of_getElem? found
    have keeps := allowed pass found
    have store : world.store = ⟨true, world.store.ops⟩ := by rw [← replays.opened]
    obtain ⟨moved, hand⟩ := review_pass_step uuid world.store.ops
      (serverReview uuid start world.log) pass.ceiling answer pass.stage replays.queue
      (replays.hands pass isPass) (ordered.2 pass isPass).sorted
      (fun op inHand row isRow same =>
        request_of_hand world ordered.1 pass isPass op row inHand isRow same) keeps
    rw [← store] at moved hand
    have server : serverReview uuid start (world.advance id pass answer).log =
        (World.taken pass.stage answer).foldl (opEffect uuid)
          (serverReview uuid start world.log) := by
      simp [serverReview, World.advance, List.foldl_append]
    refine ⟨⟨replays.opened, moved.queue, ?_, ?_⟩, rfl⟩
    · rw [server]
      exact moved.replay.trans replays.replay
    · intro other isOther
      rw [server]
      rcases mem_advance_passes world id pass answer found isOther with rfl | ⟨j, differs, place⟩
      · exact hand
      · have isOld : other ∈ world.passes := List.mem_of_getElem? place
        by_cases idle : other.stage.inHand = []
        · exact hand_of_empty _ _ _ _ _ idle
        · obtain ⟨op, inHand⟩ := List.exists_mem_of_ne_nil _ idle
          have waits := not_running_beside world chained found differs place op inHand
          have same : (passStep pass.ceiling answer world.store pass.stage).1 = world.store.ops ∧
              World.taken pass.stage answer = [] := by
            cases stage : pass.stage with
            | waiting => exact ⟨rfl, rfl⟩
            | finished => exact ⟨rfl, rfl⟩
            | _ => simp [stage, Stage.running] at waits
          change HandOk uuid (passStep pass.ceiling answer world.store pass.stage).1 _ _ _
          rw [same.1, same.2]
          exact replays.hands other isOld
  · subst isKill
    exact ⟨⟨replays.opened, replays.queue, replays.replay, by simp⟩, rfl⟩

theorem landing_step (uuid : Text) (start : Review) (world : World) (action : Action)
    (next : World) (landing : Landing uuid start world) (allowed : ReviewStep uuid world action)
    (stepped : world.step action = some next) : Landing uuid start next := by
  have ⟨ordered, chained, bounded, _⟩ := landing
  exact ⟨ordered_step world action next ordered stepped,
    chained_step world action next chained stepped, bounded_step world action next bounded stepped,
    (replays_step uuid start world action next landing allowed stepped).1⟩

theorem landing_run (uuid : Text) (start : Review) (actions : List Action) (world last : World)
    (landing : Landing uuid start world) (meets : Meets World.step (ReviewStep uuid) world actions)
    (ran : run World.step world actions = some last) :
    Landing uuid start last ∧ oneByOne uuid start last.log =
      (writesOf actions).foldl (writeEffect uuid) (oneByOne uuid start world.log) := by
  induction actions generalizing world with
  | nil =>
      rw [run, Option.some.injEq] at ran
      subst ran
      exact ⟨landing, rfl⟩
  | cons action rest induction =>
      obtain ⟨next, stepped, later⟩ := Option.bind_eq_some_iff.mp ran
      obtain ⟨landed, sent⟩ := induction next
        (landing_step uuid start world action next landing meets.1 stepped)
        (meets.tail World.step stepped) later
      refine ⟨landed, ?_⟩
      have first := (replays_step uuid start world action next landing meets.1 stepped).2
      have split : writesOf (action :: rest) = writesOf [action] ++ writesOf rest :=
        @List.filterMap_append _ _ [action] rest _
      rw [sent, first, split, List.foldl_append]

/-- Once the queue of a book's review writes is empty and no op was held aside, the server
holds the review of the legacy op and then every write in the order it was made. -/
theorem review_writes_land_one_by_one (uuid : Text) (start : Review) (ops : Ops)
    (legacy : ops.rows = [] ∨ ∃ row, ops.rows = [row] ∧ IsLegacyRow uuid row)
    (actions : List Action) (world : World)
    (meets : Meets World.step (ReviewStep uuid) (World.launch ⟨true, ops⟩) actions)
    (ran : run World.step (World.launch ⟨true, ops⟩) actions = some world)
    (empty : world.store.ops.rows = []) :
    serverReview uuid start world.log =
      (writesOf actions).foldl (writeEffect uuid) (ops.rows.foldl (opEffect uuid) start) := by
  have queue : ReviewQueue uuid ops.rows := by
    obtain rows | legacy := legacy
    · exact Or.inr (by simp [rows])
    · exact Or.inl legacy
  have first : oneByOne uuid start (World.launch ⟨true, ops⟩).log =
      ops.rows.foldl (opEffect uuid) start := by
    rw [oneByOne, World.launch, List.foldl_map]
    rfl
  have landing : Landing uuid start (World.launch ⟨true, ops⟩) := by
    refine ⟨⟨ledger_launch _, by simp [World.launch]⟩, chained_launch _, bounded_launch _,
      rfl, queue, ?_, by simp [World.launch]⟩
    rw [first]
    rfl
  obtain ⟨⟨-, -, -, replays⟩, sent⟩ := landing_run uuid start actions _ world landing meets ran
  have all := replays.replay
  rw [empty, List.foldl_nil] at all
  rw [all, sent, first]

def legacyStarsQueue (uuid : Text) : Ops :=
  Ops.empty.insert (ratingKind uuid) "/api/ratings".toList .post
    (some (.object [(PatchCoalescing.starsKey, .number 4)]))

/-- A text is written over the queued stars, and one pass sends what they fold into. -/
def textOverStars (uuid : Text) : List Action :=
  [.record (patchReview uuid [("body_md".toList, .string "good".toList)]) .none, .drain, .bound 0,
    .arrive 0] ++ List.replicate 8 (.advance 0 .response)

theorem review_writes_land_one_by_one_text_over_stars :
    ∃ world, run World.step (World.launch ⟨true, legacyStarsQueue "b".toList⟩)
        (textOverStars "b".toList) = some world ∧
      serverReview "b".toList (fun _ => .null) world.log =
        (writesOf (textOverStars "b".toList)).foldl (writeEffect "b".toList)
          ((legacyStarsQueue "b".toList).rows.foldl (opEffect "b".toList) fun _ => .null) := by
  obtain ⟨world, ran⟩ := Option.isSome_iff_exists.mp (show (run World.step
    (World.launch ⟨true, legacyStarsQueue "b".toList⟩) (textOverStars "b".toList)).isSome = true
      by decide +kernel)
  have rows : (run World.step (World.launch ⟨true, legacyStarsQueue "b".toList⟩)
      (textOverStars "b".toList)).map (·.store.ops.rows) = some [] := by decide +kernel
  rw [ran, Option.map_some, Option.some.injEq] at rows
  refine ⟨world, ran, review_writes_land_one_by_one "b".toList (fun _ => .null)
    (legacyStarsQueue "b".toList) (Or.inr ⟨_, rfl, rfl, rfl, _, rfl⟩) (textOverStars "b".toList)
    world (by decide +kernel) ran rows⟩

end Omnibus.Outbox
