import Omnibus.Outbox.Passes

/-!
# A book's reviews in the outbox

A review's patches fold into one another, its delete replaces what is queued before it, and
both absorb a stars write from before reviews. A row may be folded away while a sweep still
holds it. What the server holds once the queue is empty is what it would hold had it received
every write in the order it was made: replaying the rows onto the server's review always gives
that, because each op that a sweep holds is either the first row or overridden by the rows.
-/

namespace Omnibus.Outbox

open Omnibus.Library.Strings

/-- `OpKind.review`. -/
def reviewKind (uuid : Text) : Text := "review:".toList ++ uuid

/-- `OpKind.rating`: the stars write from before reviews. -/
def ratingKind (uuid : Text) : Text := "rating:".toList ++ uuid

def reviewPath (uuid : Text) : Text := "/api/reviews/".toList ++ uuid

def patchReview (uuid : Text) (fields : Fields) : Write :=
  .fieldPatch (reviewKind uuid) (reviewPath uuid) (.object fields) (some (ratingKind uuid))

def deleteReview (uuid : Text) : Write :=
  .whole (reviewKind uuid) (reviewPath uuid) .delete none true [ratingKind uuid]

theorem kinds_differ (uuid : Text) : ratingKind uuid ≠ reviewKind uuid := by
  intro same
  exact absurd (List.append_cancel_right same) (by decide +kernel)

abbrev Review := Text → Value

inductive Change where
  | keep
  | set (fields : Fields)
  | clear

def Change.apply (review : Review) : Change → Review
  | .keep => review
  | .set fields => fun key => (fields.lookup key).getD (review key)
  | .clear => fun _ => .null

def setAll : Option Body → Change
  | some (.object fields) => .set fields
  | _ => .keep

/-- A patch sets the fields it names, a delete clears all, and an old stars write sets or
clears the stars. -/
def change (uuid kind : Text) (method : Method) (body : Option Body) : Change :=
  if kind = ratingKind uuid then setAll (PatchCoalescing.legacyStars method body)
  else if kind = reviewKind uuid then
    match method with
    | .delete => .clear
    | .patch => setAll body
    | _ => .keep
  else .keep

def opEffect (uuid : Text) (review : Review) (op : PendingOp) : Review :=
  (change uuid op.kind op.method op.body).apply review

def writeEffect (uuid : Text) (review : Review) : Write → Review
  | .whole kind _ method body _ _ => (change uuid kind method body).apply review
  | .fieldPatch kind _ body _ => (change uuid kind .patch (some body)).apply review

def Silent (uuid : Text) (op : PendingOp) (key : Text) : Prop :=
  ∀ review, opEffect uuid review op key = review key

def Overrides (uuid : Text) (op : PendingOp) (key : Text) : Prop :=
  ∀ first second, opEffect uuid first op key = opEffect uuid second op key

theorem silent_or_overrides (uuid : Text) (op : PendingOp) (key : Text) :
    Silent uuid op key ∨ Overrides uuid op key := by
  unfold Silent Overrides opEffect
  cases change uuid op.kind op.method op.body with
  | keep => exact Or.inl fun _ => rfl
  | clear => exact Or.inr fun _ _ => rfl
  | set fields =>
      cases found : fields.lookup key with
      | none => exact Or.inl fun review => by simp [Change.apply, found]
      | some value => exact Or.inr fun first second => by simp [Change.apply, found]

theorem op_effect_congr (uuid : Text) (first second : PendingOp) (review : Review)
    (same : first.request = second.request) :
    opEffect uuid review first = opEffect uuid review second := by
  obtain ⟨-, kind, -, method, body⟩ := PendingOp.request_parts same
  rw [opEffect, opEffect, kind, method, body]

theorem op_effect_idem (uuid : Text) (op : PendingOp) (review : Review) :
    opEffect uuid (opEffect uuid review op) op = opEffect uuid review op := by
  funext key
  obtain silent | overrides := silent_or_overrides uuid op key
  · exact silent _
  · exact overrides _ _

/-- Replaying rows ends the same on a field that starts the same or that a row overrides. -/
theorem replay_agrees (uuid : Text) (rows : List PendingOp) (key : Text) (first second : Review)
    (agree : first key = second key ∨ ∃ row ∈ rows, Overrides uuid row key) :
    rows.foldl (opEffect uuid) first key = rows.foldl (opEffect uuid) second key := by
  induction rows generalizing first second with
  | nil =>
      obtain same | ⟨row, member, -⟩ := agree
      · exact same
      · cases member
  | cons row rest induction =>
      rw [List.foldl_cons, List.foldl_cons]
      apply induction
      obtain silent | overrides := silent_or_overrides uuid row key
      · obtain same | ⟨other, member, decides⟩ := agree
        · exact Or.inl (by rw [silent, silent, same])
        · obtain rfl | later := List.mem_cons.mp member
          · exact Or.inl (decides _ _)
          · exact Or.inr ⟨other, later, decides⟩
      · exact Or.inl (overrides _ _)

theorem replay_map (uuid : Text) (rows : List PendingOp) (update : PendingOp → PendingOp)
    (same : ∀ row, (update row).request = row.request) (review : Review) :
    (rows.map update).foldl (opEffect uuid) review = rows.foldl (opEffect uuid) review := by
  induction rows generalizing review with
  | nil => rfl
  | cons row rest induction =>
      rw [List.map_cons, List.foldl_cons, List.foldl_cons, induction,
        op_effect_congr uuid (update row) row review (same row)]

/-- A queued review write: a patch of the book's review, or its delete. -/
def IsReviewRow (uuid : Text) (row : PendingOp) : Prop :=
  row.kind = reviewKind uuid ∧ row.pending = true ∧
    ((row.method = .patch ∧ row.path = reviewPath uuid ∧
        ∃ fields, row.body = some (.object fields)) ∨ row.method = .delete)

/-- A queued stars write from before reviews. -/
def IsLegacyRow (uuid : Text) (row : PendingOp) : Prop :=
  row.kind = ratingKind uuid ∧ row.pending = true ∧
    ∃ fields, PatchCoalescing.legacyStars row.method row.body = some (.object fields)

/-- One legacy row alone, or review rows only. -/
def ReviewQueue (uuid : Text) (rows : List PendingOp) : Prop :=
  (∃ row, rows = [row] ∧ IsLegacyRow uuid row) ∨ ∀ row ∈ rows, IsReviewRow uuid row

/-- What a review write does to the queue: rows that go are overridden by its own row, and
replaying the queue now ends with the write. -/
structure Folds (uuid : Text) (before after : Ops) (request : Write) : Prop where
  queue : ReviewQueue uuid after.rows
  replay : ∀ review, after.rows.foldl (opEffect uuid) review =
    writeEffect uuid (before.rows.foldl (opEffect uuid) review) request
  rows : ∃ kept new, after.rows = kept ++ [new] ∧ new.id = before.seq + 1 ∧
    kept ⊆ before.rows ∧
      ∀ row ∈ before.rows, row ∈ kept ∨ ∀ key, Silent uuid row key ∨ Overrides uuid new key

theorem change_delete (uuid : Text) (body : Option Body) :
    change uuid (reviewKind uuid) .delete body = .clear := by
  simp [change, (kinds_differ uuid).symm]

theorem change_patch (uuid : Text) (fields : Fields) :
    change uuid (reviewKind uuid) .patch (some (.object fields)) = .set fields := by
  simp [change, (kinds_differ uuid).symm, setAll]

theorem set_merging (review : Review) (older newer : Fields) :
    (Change.set (PatchCoalescing.merging older newer)).apply review =
      (Change.set newer).apply ((Change.set older).apply review) := by
  funext key
  simp only [Change.apply, PatchCoalescing.lookup_merging]
  cases newer.lookup key <;> simp

/-- A delete overrides every field, and a patch every field it or what it merges names. -/
theorem overrides_delete (uuid : Text) (op : PendingOp) (kind : op.kind = reviewKind uuid)
    (method : op.method = .delete) (key : Text) : Overrides uuid op key := by
  intro first second
  rw [opEffect, opEffect, kind, method, change_delete]
  rfl

theorem overrides_merging (uuid : Text) (old new : PendingOp) (older newer : Fields)
    (oldChange : change uuid old.kind old.method old.body = .set older)
    (newChange : change uuid new.kind new.method new.body =
      .set (PatchCoalescing.merging older newer)) (key : Text) :
    Silent uuid old key ∨ Overrides uuid new key := by
  unfold Silent Overrides opEffect
  rw [oldChange, newChange]
  cases found : older.lookup key with
  | none => exact Or.inl fun review => by simp [Change.apply, found]
  | some value =>
      apply Or.inr
      intro first second
      simp only [Change.apply, PatchCoalescing.lookup_merging, found]
      cases newer.lookup key <;> simp

theorem filter_other_kind (rows : List PendingOp) (kind : Text)
    (other : ∀ row ∈ rows, row.kind ≠ kind) :
    (rows.filter fun row => row.kind = kind && row.pending) = [] := by
  rw [List.filter_eq_nil_iff]
  intro row member
  simp [other row member]

theorem commit_insert_rows (before left : Ops) (kind path : Text) (method : Method)
    (body : Option Body) :
    (OfflineStore.commit before .none
        (OfflineStore.insertOp left .none kind path method body)).1.rows =
      left.rows ++ [⟨left.seq + 1, kind, path, method, body, 0, none⟩] := by
  simp [OfflineStore.commit, OfflineStore.insertOp, Ops.insert]

theorem folds_delete (uuid : Text) (ops : Ops) (queue : ReviewQueue uuid ops.rows) :
    Folds uuid ops (OfflineStore.queue ⟨true, ops⟩ .none (deleteReview uuid)).1.ops
      (deleteReview uuid) := by
  have rows : (OfflineStore.queue ⟨true, ops⟩ .none (deleteReview uuid)).1.ops.rows =
      [⟨ops.seq + 1, reviewKind uuid, reviewPath uuid, .delete, none, 0, none⟩] := by
    have gone : ((ops.rows.filter fun row => !decide (row.kind = reviewKind uuid)).filter
        fun row => !(decide (row.kind = ratingKind uuid) && row.pending)) = [] := by
      rw [List.filter_filter, List.filter_eq_nil_iff]
      intro row member
      obtain ⟨legacy, same, kind, pending, -⟩ | reviews := queue
      · rw [same, List.mem_singleton] at member
        simp [member, kind, pending]
      · simp [(reviews row member).1]
    have left : (OfflineStore.cleared ops (reviewKind uuid) true [ratingKind uuid]).rows = [] := gone
    change (OfflineStore.commit ops .none (OfflineStore.insertOp
      (OfflineStore.cleared ops (reviewKind uuid) true [ratingKind uuid]) .none _ _ _ _)).1.rows = _
    rw [commit_insert_rows, left]
    rfl
  constructor
  · rw [rows]
    apply Or.inr
    intro row member
    rw [List.mem_singleton] at member
    subst member
    exact ⟨rfl, rfl, Or.inr rfl⟩
  · intro review
    rw [rows, List.foldl_cons, List.foldl_nil, opEffect, deleteReview, writeEffect]
    simp only [change_delete]
    rfl
  · refine ⟨[], _, rows, rfl, List.nil_subset _, ?_⟩
    intro row _
    exact Or.inr fun key => Or.inr (overrides_delete uuid _ rfl rfl key)

theorem newest_of_reviews (uuid : Text) (ops : Ops)
    (reviews : ∀ row ∈ ops.rows, IsReviewRow uuid row) :
    ops.newestPendingOp (reviewKind uuid) = ops.rows.getLast? := by
  unfold Ops.newestPendingOp
  rw [List.filter_eq_self.mpr]
  intro row member
  simp [(reviews row member).1, (reviews row member).2.1]

theorem newest_absent (ops : Ops) (kind : Text) (other : ∀ row ∈ ops.rows, row.kind ≠ kind) :
    ops.newestPendingOp kind = none := by
  unfold Ops.newestPendingOp
  rw [filter_other_kind ops.rows kind other]
  rfl

theorem delete_last (ops : Ops) (init : List PendingOp) (last : PendingOp)
    (rows : ops.rows = init ++ [last]) : (ops.deleteOps [last.id]).rows = init := by
  have ordered := ops.ordered
  rw [rows, List.pairwise_append] at ordered
  simp only [Ops.deleteOps, Ops.deleteWhere]
  rw [rows, List.filter_append]
  have keeps : (init.filter fun row => !(List.contains [last.id] row.id)) = init := by
    rw [List.filter_eq_self]
    intro row member
    have less := ordered.2.2 row member last (List.mem_singleton_self last)
    simp only [List.contains_cons, List.contains_nil, Bool.or_false, Bool.not_eq_true',
      beq_eq_false_iff_ne]
    omega
  rw [keeps]
  simp

theorem fold_pending_reviews (uuid : Text) (ops : Ops) (fields : Fields)
    (reviews : ∀ row ∈ ops.rows, IsReviewRow uuid row) :
    OfflineStore.foldPending ops (reviewKind uuid) (reviewPath uuid) (.object fields) =
        (ops, .object fields) ∨
      ∃ init last older, ops.rows = init ++ [last] ∧ last.method = .patch ∧
        last.body = some (.object older) ∧
        OfflineStore.foldPending ops (reviewKind uuid) (reviewPath uuid) (.object fields) =
          (ops.deleteOps [last.id], .object (PatchCoalescing.merging older fields)) := by
  have newest := newest_of_reviews uuid ops reviews
  cases found : ops.rows.getLast? with
  | none =>
      apply Or.inl
      rw [found] at newest
      simp [OfflineStore.foldPending, OfflineStore.foldedNewest, newest]
  | some last =>
      rw [found] at newest
      obtain ⟨init, rows⟩ := List.getLast?_eq_some_iff.mp found
      have isRow : last ∈ ops.rows := by simp [rows]
      obtain ⟨-, -, ⟨method, path, older, body⟩ | method⟩ := reviews last isRow
      · apply Or.inr
        refine ⟨init, last, older, rows, method, body, ?_⟩
        simp [OfflineStore.foldPending, OfflineStore.foldedNewest, newest, method, path, body,
          PatchCoalescing.folded, PatchCoalescing.object]
      · apply Or.inl
        simp [OfflineStore.foldPending, OfflineStore.foldedNewest, newest, method]

theorem fold_legacy_reviews (uuid : Text) (ops : Ops) (merged : Body)
    (reviews : ∀ row ∈ ops.rows, IsReviewRow uuid row) :
    OfflineStore.foldLegacy ops (reviewKind uuid) merged (some (ratingKind uuid)) =
      (ops, merged) := by
  have absent := newest_absent ops (ratingKind uuid) fun row member same =>
    kinds_differ uuid (same.symm.trans (reviews row member).1)
  simp [OfflineStore.foldLegacy, absent]

/-- The table after a patch: the rows the folds leave, and the patch with what folded in. -/
theorem patch_rows (uuid : Text) (ops left : Ops) (merged fields : Fields)
    (folds : OfflineStore.foldLegacy
      (OfflineStore.foldPending ops (reviewKind uuid) (reviewPath uuid) (.object fields)).1
      (reviewKind uuid)
      (OfflineStore.foldPending ops (reviewKind uuid) (reviewPath uuid) (.object fields)).2
      (some (ratingKind uuid)) = (left, .object merged)) :
    (OfflineStore.queue ⟨true, ops⟩ .none (patchReview uuid fields)).1.ops.rows =
      left.rows ++ [⟨left.seq + 1, reviewKind uuid, reviewPath uuid, .patch,
        some (.object merged), 0, none⟩] := by
  change (OfflineStore.commit ops .none (OfflineStore.insertOp
    (OfflineStore.foldLegacy _ _ _ _).1 .none _ _ .patch
      (some (OfflineStore.foldLegacy _ _ _ _).2))).1.rows = _
  rw [commit_insert_rows, folds]

theorem replay_patch (uuid : Text) (id : Nat) (fields : Fields) (review : Review) :
    opEffect uuid review ⟨id, reviewKind uuid, reviewPath uuid, .patch, some (.object fields), 0,
      none⟩ = (Change.set fields).apply review := by
  rw [opEffect]
  simp only [change_patch]

theorem write_effect_patch (uuid : Text) (fields : Fields) (review : Review) :
    writeEffect uuid review (patchReview uuid fields) = (Change.set fields).apply review := by
  rw [patchReview, writeEffect, change_patch]

theorem folds_patch_legacy (uuid : Text) (ops : Ops) (fields : Fields) (legacy : PendingOp)
    (rows : ops.rows = [legacy]) (isLegacy : IsLegacyRow uuid legacy) :
    Folds uuid ops (OfflineStore.queue ⟨true, ops⟩ .none (patchReview uuid fields)).1.ops
      (patchReview uuid fields) := by
  obtain ⟨kind, pending, stars, isStars⟩ := isLegacy
  have noReview := newest_absent ops (reviewKind uuid) (by
    intro row member same
    rw [rows, List.mem_singleton] at member
    subst member
    exact kinds_differ uuid (kind.symm.trans same))
  have newest : ops.newestPendingOp (ratingKind uuid) = some legacy := by
    simp [Ops.newestPendingOp, rows, kind, pending]
  have left : (ops.deletePendingOps (ratingKind uuid)).rows = [] := by
    simp [Ops.deletePendingOps, Ops.deleteWhere, rows, kind, pending]
  have folds : OfflineStore.foldLegacy
      (OfflineStore.foldPending ops (reviewKind uuid) (reviewPath uuid) (.object fields)).1
      (reviewKind uuid)
      (OfflineStore.foldPending ops (reviewKind uuid) (reviewPath uuid) (.object fields)).2
      (some (ratingKind uuid)) = (ops.deletePendingOps (ratingKind uuid),
        .object (PatchCoalescing.merging stars fields)) := by
    have same : OfflineStore.foldPending ops (reviewKind uuid) (reviewPath uuid)
        (.object fields) = (ops, .object fields) := by
      simp [OfflineStore.foldPending, OfflineStore.foldedNewest, noReview]
    rw [same]
    simp [OfflineStore.foldLegacy, newest, Ops.hasPendingOp, left, isStars,
      PatchCoalescing.folded, PatchCoalescing.object]
  have after := patch_rows uuid ops _ _ fields folds
  rw [left, List.nil_append] at after
  have legacyChange : change uuid legacy.kind legacy.method legacy.body = .set stars := by
    simp [change, kind, isStars, setAll]
  constructor
  · rw [after]
    apply Or.inr
    intro row member
    rw [List.mem_singleton] at member
    subst member
    exact ⟨rfl, rfl, Or.inl ⟨rfl, rfl, _, rfl⟩⟩
  · intro review
    rw [after, rows, write_effect_patch, List.foldl_cons, List.foldl_nil, List.foldl_cons,
      List.foldl_nil, replay_patch, set_merging, opEffect, legacyChange]
  · refine ⟨[], _, after, rfl, List.nil_subset _, ?_⟩
    intro row member
    rw [rows, List.mem_singleton] at member
    subst member
    exact Or.inr fun key => overrides_merging uuid row _ stars fields legacyChange
      (change_patch uuid _) key

theorem folds_patch_reviews (uuid : Text) (ops : Ops) (fields : Fields)
    (reviews : ∀ row ∈ ops.rows, IsReviewRow uuid row) :
    Folds uuid ops (OfflineStore.queue ⟨true, ops⟩ .none (patchReview uuid fields)).1.ops
      (patchReview uuid fields) := by
  have isReview (id : Nat) (merged : Fields) : IsReviewRow uuid
      ⟨id, reviewKind uuid, reviewPath uuid, .patch, some (.object merged), 0, none⟩ :=
    ⟨rfl, rfl, Or.inl ⟨rfl, rfl, merged, rfl⟩⟩
  obtain same | ⟨init, last, older, rows, method, body, folded⟩ :=
    fold_pending_reviews uuid ops fields reviews
  · have after := patch_rows uuid ops ops fields fields (by
      rw [same, fold_legacy_reviews uuid ops _ reviews])
    constructor
    · rw [after]
      apply Or.inr
      intro row member
      obtain old | new := List.mem_append.mp member
      · exact reviews row old
      · rw [List.mem_singleton.mp new]
        exact isReview _ _
    · intro review
      rw [after, List.foldl_append, List.foldl_cons, List.foldl_nil, replay_patch,
        write_effect_patch]
    · exact ⟨ops.rows, _, after, rfl, List.Subset.refl _, fun row member => Or.inl member⟩
  · have initRows := delete_last ops init last rows
    have initReviews : ∀ row ∈ (ops.deleteOps [last.id]).rows, IsReviewRow uuid row := by
      rw [initRows]
      intro row member
      exact reviews row (by simp [rows, member])
    have after := patch_rows uuid ops (ops.deleteOps [last.id])
      (PatchCoalescing.merging older fields) fields (by
        rw [folded, fold_legacy_reviews uuid _ _ initReviews])
    rw [initRows] at after
    have lastKind : last.kind = reviewKind uuid := (reviews last (by simp [rows])).1
    have lastChange : change uuid last.kind last.method last.body = .set older := by
      rw [lastKind, method, body, change_patch]
    constructor
    · rw [after]
      apply Or.inr
      intro row member
      obtain old | new := List.mem_append.mp member
      · exact reviews row (by simp [rows, old])
      · rw [List.mem_singleton.mp new]
        exact isReview _ _
    · intro review
      rw [after, rows, List.foldl_append, List.foldl_append, List.foldl_cons, List.foldl_nil,
        List.foldl_cons, List.foldl_nil, replay_patch, write_effect_patch, set_merging, opEffect,
        lastChange]
    · refine ⟨init, _, after, rfl, ?_, ?_⟩
      · rw [rows]
        exact List.subset_append_left _ _
      · intro row member
        rw [rows] at member
        obtain old | isLast := List.mem_append.mp member
        · exact Or.inl old
        · rw [List.mem_singleton.mp isLast]
          exact Or.inr fun key => overrides_merging uuid last _ older fields lastChange
            (change_patch uuid _) key

def IsReviewWrite (uuid : Text) (request : Write) : Prop :=
  (∃ fields, request = patchReview uuid fields) ∨ request = deleteReview uuid

theorem folds_write (uuid : Text) (ops : Ops) (request : Write)
    (isReview : IsReviewWrite uuid request) (queue : ReviewQueue uuid ops.rows) :
    Folds uuid ops (OfflineStore.queue ⟨true, ops⟩ .none request).1.ops request := by
  obtain ⟨fields, rfl⟩ | rfl := isReview
  · obtain ⟨legacy, rows, isLegacy⟩ | reviews := queue
    · exact folds_patch_legacy uuid ops fields legacy rows isLegacy
    · exact folds_patch_reviews uuid ops fields reviews
  · exact folds_delete uuid ops queue

end Omnibus.Outbox
