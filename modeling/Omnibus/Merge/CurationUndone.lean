import Omnibus.Merge.CurationRows
import Omnibus.Merge.FoldedReview

/-!
# Undoing the curation of a merge

What a merge leaves of the rows of the readers it moved a row for, and of the others', and
the undo that puts back every reader's row while the survivor says what the merge left it
saying.
-/

namespace Omnibus.Merge

open Omnibus.Library.Sql

variable {T : Type} [CurationRow T] {source target : Uuid} {name : TableName}
  {table prepared : DbTable}

/-- A table of one row of a reader and a book, which a merge settles by reader alone. -/
structure ByReader (name : TableName) : Prop where
  keyed : [.userId, .bookUuid] ∈ name.keys
  rule : ∃ keep, rule name = some ⟨name, [.userId], keep⟩
  unadjusted : ∀ source target table row, adjust source target name table row = row
  numbered : .userId ∈ name.columns

theorem reviews_by_reader : ByReader .reviews where
  keyed := by decide
  rule := ⟨.target, rfl⟩
  unadjusted _ _ _ _ := rfl
  numbered := by decide

theorem status_by_reader : ByReader .bookReadStatus where
  keyed := by decide
  rule := ⟨.max .updatedAt, rfl⟩
  unadjusted _ _ _ _ := rfl
  numbered := by decide

theorem one_per_reader {parents : Parent → List Value} (byReader : ByReader name)
    (stored : Stored name parents table) : OnePerReader table :=
  .of_keyed byReader.keyed stored.keyed fun row member =>
    stored.numbered row member .userId (by simp) byReader.numbered

section Moves

/-- What the merge has done to a table before it settles the collisions: the source's readers
are the ones they were, and so are the target's rows of the other readers. -/
structure Prepared (T : Type) [CurationRow T] (source target : Uuid)
    (table prepared : DbTable) : Prop where
  one : OnePerReader prepared
  readers : ∀ user, (∃ row ∈ (loadRows prepared source : List T), CurationRow.userId row = user) ↔
    ∃ row ∈ (loadRows table source : List T), CurationRow.userId row = user
  others : ∀ row : T,
    (∀ moved ∈ (loadRows table source : List T), CurationRow.userId moved ≠ CurationRow.userId row) →
    (row ∈ loadRows prepared target ↔ row ∈ loadRows table target)

theorem prepared_refl (one : OnePerReader table) : Prepared T source target table table where
  one := one
  readers _ := Iff.rfl
  others _ _ := Iff.rfl

/-- Folding the reviews writes to the target alone, and for the source's readers alone. -/
theorem prepared_reviews (different : source ≠ target) (one : OnePerReader table) :
    Prepared ReviewRow source target table (settleReviews source target table) := by
  refine List.foldlRecOn (loadRatings table source) _ (prepared_refl one) ?_
  -- the folds so far, and a review that is the source's
  intro now soFar review moved
  split
  · rename_i found isFound
    have reader : found.userId = review.userId := by simpa using List.find?_some isFound
    set folded := ReviewRow.settle found review with isFolded
    have foldedReader : CurationRow.userId folded = review.userId := reader
    rw [write_review_eq]
    constructor
    · exact write_row_one target folded soFar.one
    · intro user
      rw [← soFar.readers user]
      refine exists_congr fun row => and_congr_left fun _ => ?_
      exact mem_load_write_other soFar.one target source folded row (.inl different)
    · intro row other
      rw [mem_load_write_other soFar.one target target folded row (.inr ?_)]
      · exact soFar.others row other
      · rw [foldedReader]
        exact (other review moved).symm
  · exact soFar

structure Moved (T : Type) [CurationRow T] (source target : Uuid)
    (table merged : DbTable) : Prop where
  one : OnePerReader merged
  emptied : (loadRows merged source : List T) = []
  others : ∀ row : T,
    (∀ moved ∈ (loadRows table source : List T), CurationRow.userId moved ≠ CurationRow.userId row) →
    (row ∈ loadRows merged target ↔ row ∈ loadRows table target)
  present : ∀ moved ∈ (loadRows table source : List T),
    ∃ row ∈ (loadRows merged target : List T), CurationRow.userId row = CurationRow.userId moved

theorem carry_reader (byReader : ByReader name) (now : Int) (row : DbRow) :
    carry source target now name prepared row .userId = row .userId := by
  unfold carry
  rw [byReader.unadjusted]
  split
  · refine retarget_set_of_ne now name target row (by decide) fun _ => by decide
  · rfl

theorem carry_off_source (byReader : ByReader name) (now : Int) {row : DbRow}
    (offSource : onBook source row = false) :
    carry source target now name prepared row = row := by
  rw [carry, offSource, byReader.unadjusted]
  rfl

theorem one_survives (byReader : ByReader name) (one : OnePerReader prepared)
    (different : source ≠ target) {row : DbRow} (member : row ∈ prepared.rows)
    (onSource : onBook source row = true) :
    ∃ kept' ∈ prepared.rows, kept source target name prepared kept' = true ∧
      (onBook source kept' = true ∨ onBook target kept' = true) ∧
      kept' .userId = row .userId := by
  obtain ⟨keep, ruled⟩ := byReader.rule
  by_cases isBeaten : beaten target ⟨name, [.userId], keep⟩ prepared.rows row = true
  · obtain ⟨other, otherMem, wins⟩ := List.any_eq_true.mp isBeaten
    simp only [Bool.and_eq_true] at wins
    obtain ⟨⟨onTarget, agreed⟩, _⟩ := wins
    have sameReader := ((agree_iff _ _ _).mp agreed .userId (by simp)).2
    have offSource := on_book_exclusive different.symm onTarget
    refine ⟨other, otherMem, ?_, .inr onTarget, sameReader⟩
    simp only [kept, ruled, survives, offSource, onTarget, Bool.false_eq_true, if_false, if_true,
      Bool.or_eq_true, Bool.not_eq_true', List.any_eq_false, Bool.and_eq_true, not_and]
    refine .inr fun partner partnerMem alive agreed' => ?_
    -- the only row of the reader on the source is the beaten one
    have sameRow : partner = row := one.eq_of_reader partnerMem member source alive.1 onSource
      (((agree_iff _ _ _).mp agreed' .userId (by simp)).2.trans sameReader)
    rw [sameRow, isBeaten] at alive
    cases alive.2
  · refine ⟨row, member, ?_, .inl onSource, rfl⟩
    simp only [kept, ruled, survives, onSource, if_true, Bool.not_eq_true']
    simpa using isBeaten

theorem moved_of_prepared (byReader : ByReader name) (different : source ≠ target) (now : Int)
    (ready : Prepared T source target table prepared) (keyed : Keyed name.keys prepared.rows) :
    Moved T source target table (mergedTable source target now name prepared) := by
  set merged := mergedTable source target now name prepared with isMerged
  have rows (row : DbRow) : row ∈ merged.rows ↔ ∃ old ∈ prepared.rows,
      kept source target name prepared old = true ∧
        carry source target now name prepared old = row := by
    rw [isMerged, merged_rows source target now different, List.mem_map]
    simp only [List.mem_filter, and_assoc]
  have one : OnePerReader merged := by
    refine .of_keyed byReader.keyed
      (merged_keyed source target now different name prepared keyed) fun row member => ?_
    obtain ⟨old, oldMem, _, rfl⟩ := (rows row).mp member
    rw [carry_reader byReader]
    exact ready.one.readers old oldMem
  constructor
  · exact one
  · apply List.eq_nil_iff_forall_not_mem.mpr
    intro row member
    obtain ⟨stored, storedMem, onSource, _⟩ := (mem_load_rows source row).mp member
    obtain ⟨old, oldMem, _, rfl⟩ := (rows stored).mp storedMem
    rw [on_book_iff, carry_book] at onSource
    split at onSource
    · exact different (by injection onSource.symm)
    · rename_i offSource
      exact offSource ((on_book_iff source old).mpr onSource)
  · intro row other
    rw [← ready.others row other, mem_load_rows, mem_load_rows]
    have notMoved (old : DbRow) (oldMem : old ∈ prepared.rows) (onSource : onBook source old = true)
        (sameReader : CurationRow.userId (CurationRow.ofRow old : T) = CurationRow.userId row) :
        False := by
      obtain ⟨moved, movedMem, isReader⟩ := (ready.readers (CurationRow.userId row)).mp
        ⟨CurationRow.ofRow old, (mem_load_rows source _).mpr ⟨old, oldMem, onSource, rfl⟩,
          sameReader⟩
      exact other moved movedMem isReader
    constructor
    · intro ⟨stored, storedMem, onTarget, isRow⟩
      obtain ⟨old, oldMem, _, rfl⟩ := (rows stored).mp storedMem
      have sameReader : CurationRow.userId (CurationRow.ofRow old : T) = CurationRow.userId row := by
        rw [← isRow, CurationRow.user_of_row, CurationRow.user_of_row, carry_reader byReader]
      cases onSource : onBook source old with
      | true => exact (notMoved old oldMem onSource sameReader).elim
      | false =>
          rw [carry_off_source byReader now onSource] at onTarget isRow
          exact ⟨old, oldMem, onTarget, isRow⟩
    · rintro ⟨old, oldMem, onTarget, isRow⟩
      have offSource := on_book_exclusive different.symm onTarget
      have same : carry source target now name prepared old = old :=
        carry_off_source byReader now offSource
      refine ⟨old, (rows old).mpr ⟨old, oldMem, ?_, same⟩, onTarget, isRow⟩
      obtain ⟨keep, ruled⟩ := byReader.rule
      simp only [kept, ruled, survives, offSource, onTarget, Bool.false_eq_true, if_false, if_true,
        Bool.or_eq_true, Bool.not_eq_true', List.any_eq_false, Bool.and_eq_true, not_and]
      refine .inr fun partner partnerMem alive agreed => ?_
      apply notMoved partner partnerMem alive.1
      rw [← isRow, CurationRow.user_of_row, CurationRow.user_of_row,
        ((agree_iff _ _ _).mp agreed .userId (by simp)).2]
  · intro moved movedMem
    obtain ⟨row, rowMem, isReader⟩ := (ready.readers _).mpr ⟨moved, movedMem, rfl⟩
    obtain ⟨stored, storedMem, onSource, isRow⟩ := (mem_load_rows source row).mp rowMem
    obtain ⟨survivor, survivorMem, isKept, onEither, sameReader⟩ :=
      one_survives byReader ready.one different storedMem onSource
    refine ⟨CurationRow.ofRow (carry source target now name prepared survivor),
      (mem_load_rows target _).mpr ⟨_, (rows _).mpr ⟨survivor, survivorMem, isKept, rfl⟩, ?_, rfl⟩,
      ?_⟩
    · rw [on_book_iff, carry_book]
      split
      · rfl
      · rename_i offSource
        exact (on_book_iff target survivor).mp (onEither.resolve_left offSource)
    · rw [CurationRow.user_of_row, carry_reader byReader, sameReader, ← isReader, ← isRow,
        CurationRow.user_of_row]

end Moves

section Undo

/-- The rows put back under the target are its own for the readers of the source. -/
theorem mem_put_back {table : DbTable} (one : OnePerReader table) (sources : List T) (row : T) :
    (row ∈ sources.filterMap fun other =>
        byUser (loadRows table target) (CurationRow.userId other)) ↔
      row ∈ (loadRows table target : List T) ∧
        CurationRow.userId row ∈ sources.map CurationRow.userId := by
  simp only [List.mem_filterMap, by_user_eq_some one, List.mem_map]
  constructor
  · intro ⟨other, otherMem, member, sameReader⟩
    exact ⟨member, other, otherMem, sameReader.symm⟩
  · intro ⟨member, other, otherMem, sameReader⟩
    exact ⟨other, otherMem, member, sameReader.symm⟩

theorem put_back_readers {table : DbTable} (one : OnePerReader table) {sources : List T}
    (distinct : (sources.map CurationRow.userId).Nodup) :
    ((sources.filterMap fun row =>
      byUser (loadRows table target) (CurationRow.userId row)).map
        (CurationRow.userId : T → Int)).Nodup := by
  have readers : (sources.filterMap fun row =>
      byUser (loadRows table target) (CurationRow.userId row)).map
        (CurationRow.userId : T → Int) =
      (sources.map CurationRow.userId).filter fun user =>
        (byUser (loadRows table target : List T) user).isSome := by
    clear distinct
    induction sources with
    | nil => rfl
    | cons row rest induction =>
        cases found : byUser (loadRows table target : List T) (CurationRow.userId row) with
        | none => simp [found, induction]
        | some other =>
            have sameReader := ((by_user_eq_some one target _ other).mp found).2
            simp [found, induction, sameReader]
  rw [readers]
  exact distinct.filter _

/-- While the survivor holds the rows the merge left it, the undo puts back both books'. -/
theorem restore_rows_of_moved {merged current : DbTable} (what : String)
    (different : source ≠ target) (one : OnePerReader table)
    (exact : ∀ book, ∀ row ∈ (loadRows table book : List T), CurationRow.Exact row)
    (moved : Moved T source target table merged) (oneNow : OnePerReader current)
    (onTarget : (loadRows current target : List T) = loadRows merged target)
    (onSource : (loadRows current source : List T) = loadRows merged source)
    (ctx : PlanContext)
    (live : ∀ row ∈ (loadRows current target : List T), CurationRow.userId row ∈ ctx.liveUsers)
    (unclaimed : ∀ row ∈ (loadRows table source : List T),
      CurationRow.userId row ∉ ctx.claimedByLaterMerges) :
    ∃ restored, restoreRows (T := T) what source target
        ⟨loadRows table source, loadRows table target, loadRows merged target⟩ ctx current =
          .ok restored ∧
      (loadRows restored source : List T) = loadRows table source ∧
      (loadRows restored target : List T) = loadRows table target := by
  set sources : List T := loadRows table source with isSources
  set targets : List T := loadRows table target with isTargets
  have planned := plan_restore_unchanged sources targets (loadRows merged target)
    (loadRows current target) ctx (fun row member => by
      obtain ⟨left, leftMem, sameReader⟩ := moved.present row member
      rw [← sameReader]
      exact live left (onTarget ▸ leftMem)) unclaimed
    (fun row _ => by rw [onTarget]; exact says_the_same_refl _)
  set plan : RestorePlan T :=
    { toSource := sources
      toTarget := sources.filterMap fun row => byUser targets (CurationRow.userId row)
      clearTarget := (sources.map CurationRow.userId).filter fun user =>
        byUser targets user = none } with isPlan
  set cleared := plan.clearTarget.foldl (clearRow target) current with isCleared
  set returned := plan.toTarget.foldl (fun table row => writeRow target row table) cleared
    with isReturned
  have oneCleared : OnePerReader cleared := clear_rows_one target _ oneNow
  have oneReturned : OnePerReader returned := write_rows_one target _ oneCleared
  have oneRestored : OnePerReader (applyPlan source target plan current) :=
    write_rows_one source _ oneReturned
  have back (row : T) : row ∈ plan.toTarget ↔
      row ∈ targets ∧ CurationRow.userId row ∈ sources.map CurationRow.userId :=
    mem_put_back one sources row
  have backReaders : (plan.toTarget.map CurationRow.userId).Nodup :=
    put_back_readers one (one.loaded_readers source)
  refine ⟨applyPlan source target plan current, ?_, ?_, ?_⟩
  · unfold restoreRows
    simp only [planned, isPlan]
  · apply oneRestored.load_rows_eq one source
    intro row
    change row ∈ loadRows (plan.toSource.foldl _ returned) source ↔ _
    rw [mem_load_writes oneReturned source plan.toSource row (exact source)
      (one.loaded_readers source), isReturned,
      mem_load_writes_other oneCleared target source plan.toTarget row
        fun _ _ => .inl different, isCleared,
      mem_load_clears oneNow target source plan.clearTarget row, onSource, moved.emptied]
    simp [isPlan, isSources]
  · apply oneRestored.load_rows_eq one target
    intro row
    change row ∈ loadRows (plan.toSource.foldl _ returned) target ↔ _
    rw [mem_load_writes_other oneReturned source target plan.toSource row
        fun _ _ => .inl different.symm, isReturned,
      mem_load_writes oneCleared target plan.toTarget row
        (fun row member => exact target row ((back row).mp member).1) backReaders, isCleared,
      mem_load_clears oneNow target target plan.clearTarget row, onTarget, back]
    by_cases isMoved : CurationRow.userId row ∈ sources.map CurationRow.userId
    · simp only [isMoved, and_true]
      constructor
      · rintro (isTarget | ⟨⟨_, remains⟩, notBack⟩)
        · exact isTarget
        · -- the reader had a target row, or it was cleared
          cases found : byUser targets (CurationRow.userId row) with
          | none =>
              refine absurd (remains trivial) (not_not.mpr ?_)
              rw [isPlan, List.mem_filter]
              exact ⟨isMoved, by simp [found]⟩
          | some before =>
              obtain ⟨beforeMem, sameReader⟩ := (by_user_eq_some one target _ before).mp found
              refine absurd ?_ notBack
              rw [← sameReader]
              refine List.mem_map_of_mem ((back before).mpr ⟨beforeMem, ?_⟩)
              rwa [sameReader]
      · exact .inl
    · have other : ∀ moved ∈ sources, CurationRow.userId moved ≠ CurationRow.userId row := by
        intro moved member same
        exact isMoved (List.mem_map.mpr ⟨moved, member, same⟩)
      have notBack : CurationRow.userId row ∉ plan.toTarget.map CurationRow.userId := by
        intro inBack
        obtain ⟨before, beforeMem, sameReader⟩ := List.mem_map.mp inBack
        exact isMoved (sameReader ▸ ((back before).mp beforeMem).2)
      have notCleared : CurationRow.userId row ∉ plan.clearTarget := by
        intro inClear
        exact isMoved (List.mem_filter.mp inClear).1
      rw [moved.others row other]
      simp [isMoved, notBack, notCleared]

end Undo

/-- The checks of a `reviews` row: stars and their date go together, and the creation date is
`NOT NULL`. -/
structure ReviewChecks (row : DbRow) : Prop where
  stars : row .halfStars = .null ∨ (row .halfStars).IsInteger
  rated : row .ratedAt = .null ∨ (row .ratedAt).IsInteger
  dated : row .halfStars = .null ↔ row .ratedAt = .null
  created : (row .createdAt).IsInteger

instance (row : DbRow) : Decidable (ReviewChecks row) :=
  decidable_of_iff
    ((row .halfStars = .null ∨ (row .halfStars).IsInteger) ∧
      (row .ratedAt = .null ∨ (row .ratedAt).IsInteger) ∧
      (row .halfStars = .null ↔ row .ratedAt = .null) ∧ (row .createdAt).IsInteger)
    ⟨fun ⟨stars, rated, dated, created⟩ => ⟨stars, rated, dated, created⟩,
      fun checks => ⟨checks.stars, checks.rated, checks.dated, checks.created⟩⟩

theorem dated_of_checks {row : DbRow} (checks : ReviewChecks row) : (ReviewRow.ofRow row).Dated := by
  have isSome {value : Value} (number : value = .null ∨ value.IsInteger) :
      (Column.optionalInteger value).isSome = true ↔ value ≠ .null := by
    rcases number with rfl | ⟨number, rfl⟩ <;> simp [Column.optionalInteger]
  constructor
  · change (Column.optionalInteger _).isSome = (Column.optionalInteger _).isSome
    rw [Bool.eq_iff_iff, isSome checks.stars, isSome checks.rated]
    exact not_congr checks.dated
  · obtain ⟨date, isDate⟩ := checks.created
    change (Column.optionalInteger _).isSome = true
    rw [isDate]
    rfl

/-- Folding two reviews of one reader loses nothing and lets no private date be seen, and an
undo that finds the survivor as the merge left it gives every reader both rows back. -/
theorem reviews_fold_and_return :
    (∀ target source : ReviewRow,
      ReviewRow.Folds target source (ReviewRow.settle target source)) ∧
    (∀ target source target' source' : ReviewRow, ReviewRow.visible target source ≠ [] →
      ReviewRow.visible target source = ReviewRow.visible target' source' →
      (ReviewRow.settle target source).createdAt = (ReviewRow.settle target' source').createdAt ∧
      (ReviewRow.settle target source).updatedAt =
        (ReviewRow.settle target' source').updatedAt) ∧
    ∀ (source target : Uuid) (mergedAt : Int) (db merged current : Db)
      (claimedStatus claimedRatings : List Int), source ≠ target → db.Valid →
      (∀ row ∈ (db.tables .reviews).rows, ReviewChecks row) →
      moveProgressAndHistory source target mergedAt db = .ok merged → current.Valid →
      (∀ book ∈ [source, target],
        loadRatings (current.tables .reviews) book = loadRatings (merged.tables .reviews) book ∧
        loadStatus (current.tables .bookReadStatus) book =
          loadStatus (merged.tables .bookReadStatus) book) →
      (∀ row ∈ loadStatus (db.tables .bookReadStatus) source, row.userId ∉ claimedStatus) →
      (∀ row ∈ loadRatings (db.tables .reviews) source, row.userId ∉ claimedRatings) →
      ∃ restored, restoreCuration source target (captureCuration source target db merged)
          claimedStatus claimedRatings current = .ok restored ∧
        ∀ book ∈ [source, target],
          loadRatings (restored.tables .reviews) book = loadRatings (db.tables .reviews) book ∧
          loadStatus (restored.tables .bookReadStatus) book =
            loadStatus (db.tables .bookReadStatus) book := by
  refine ⟨ReviewRow.settle_folds, fun ours theirs ours' theirs' seen same => ?_, ?_⟩
  · have dates := ReviewRow.settle_dates ours theirs seen
    rw [same, ← ReviewRow.settle_dates ours' theirs' (same ▸ seen)] at dates
    simpa using dates
  · intro source target mergedAt db merged current claimedStatus claimedRatings different valid
      checked moved stands unchanged unclaimedStatus unclaimedRatings
    rw [move_progress_and_history source target mergedAt different db valid,
      Except.ok.injEq] at moved
    subst moved
    have oneReview := one_per_reader reviews_by_reader (valid .reviews)
    have oneStatus := one_per_reader status_by_reader (valid .bookReadStatus)
    have live {name : TableName} (byReader : ByReader name)
        (refers : ⟨.userId, .users, .cascade⟩ ∈ name.foreignKeys)
        {U : Type} [CurationRow U] (row : U)
        (member : row ∈ loadRows (current.tables name) target) :
        CurationRow.userId row ∈ loadLiveUsers current := by
      obtain ⟨stored, storedMem, _, rfl⟩ := (mem_load_rows target row).mp member
      obtain ⟨user, isUser⟩ := (one_per_reader byReader (stands name)).readers stored storedMem
      have parent := (stands name).referenced stored storedMem _ refers
      simp only [isUser, reduceCtorEq, false_or] at parent
      rw [reader_of_row isUser, loadLiveUsers, List.mem_filterMap]
      exact ⟨_, parent, rfl⟩
    obtain ⟨statuses, statusRun, statusSource, statusTarget⟩ := restore_rows_of_moved
      (T := ReadStatusRow) "read status" different oneStatus (fun _ _ _ => trivial)
      (moved_of_prepared status_by_reader different mergedAt (prepared_refl oneStatus)
        (valid .bookReadStatus).keyed)
      (one_per_reader status_by_reader (stands .bookReadStatus))
      (unchanged target (by simp)).2 (unchanged source (by simp)).2
      ⟨loadLiveUsers current, claimedStatus⟩
      (fun row member => live status_by_reader (by decide) row member) unclaimedStatus
    obtain ⟨reviews, reviewRun, reviewSource, reviewTarget⟩ := restore_rows_of_moved
      (T := ReviewRow) "review" different oneReview
      (fun book row member => by
        obtain ⟨stored, storedMem, _, rfl⟩ := (mem_load_rows book row).mp member
        exact dated_of_checks (checked stored storedMem))
      (moved_of_prepared reviews_by_reader different mergedAt
        (prepared_reviews different oneReview)
        (reviewed_keyed source target .reviews db.parents _ (valid .reviews)))
      (one_per_reader reviews_by_reader (stands .reviews))
      (unchanged target (by simp)).1 (unchanged source (by simp)).1
      ⟨loadLiveUsers current, claimedRatings⟩
      (fun row member => live reviews_by_reader (by decide) row member) unclaimedRatings
    refine ⟨(current.set .bookReadStatus statuses).set .reviews reviews, ?_, ?_⟩
    · set snapshot := captureCuration source target db (mergedDb source target mergedAt db)
      have statusRun : restoreStatus source target snapshot
          ⟨loadLiveUsers current, claimedStatus⟩ (current.tables .bookReadStatus) =
          .ok statuses := statusRun
      have reviewRun : restoreRatings source target snapshot
          ⟨loadLiveUsers current, claimedRatings⟩ (current.tables .reviews) = .ok reviews :=
        reviewRun
      have first : current.modifyM .bookReadStatus (restoreStatus source target snapshot
          ⟨loadLiveUsers current, claimedStatus⟩) = .ok (current.set .bookReadStatus statuses) := by
        rw [Db.modifyM, statusRun]
      have second : (current.set .bookReadStatus statuses).modifyM .reviews
          (restoreRatings source target snapshot ⟨loadLiveUsers current, claimedRatings⟩) =
          .ok ((current.set .bookReadStatus statuses).set .reviews reviews) := by
        rw [Db.modifyM, Db.set_tables_of_ne _ _ (by decide), reviewRun]
      simp only [restoreCuration, first, bind, Except.bind]
      exact second
    · intro book isBook
      simp only [List.mem_cons, List.not_mem_nil, or_false] at isBook
      rw [Db.set_tables_self, Db.set_tables_of_ne _ _ (by decide), Db.set_tables_self]
      rcases isBook with rfl | rfl
      · exact ⟨reviewSource, statusSource⟩
      · exact ⟨reviewTarget, statusTarget⟩

section Example

def reviewEntry (id : Int) (book : Uuid) (stars : Int) (notes : String) (written : Int) :
    List (ColumnName × Value) :=
  [(.id, .integer id), (.userId, .integer 1), (.bookUuid, .text book),
    (.halfStars, .integer stars), (.notesMd, .text notes), (.spoiler, .integer 0),
    (.ratedAt, .integer written), (.createdAt, .integer written), (.updatedAt, .integer written)]

def ratedTwice : List (List (ColumnName × Value)) :=
  [reviewEntry 1 "a" 9 "better" 20, reviewEntry 2 "b" 6 "fine" 10]

/-- What the merge of `a` into `b` leaves. -/
def ratedOnce : List (List (ColumnName × Value)) :=
  [[(.id, .integer 2), (.userId, .integer 1), (.bookUuid, .text "b"), (.halfStars, .integer 9),
    (.notesMd, .text "better\n\nfine"), (.spoiler, .integer 0), (.ratedAt, .integer 20),
    (.createdAt, .integer 10), (.updatedAt, .integer 20)]]

theorem reviews_fold_and_return_rated_twice :
    ∃ restored, restoreCuration "a" "b"
        (captureCuration "a" "b" (onlyTable .reviews (ratedTwice.map Row.of) oneReader)
          (mergedDb "a" "b" 100 (onlyTable .reviews (ratedTwice.map Row.of) oneReader)))
        [] [] (onlyTable .reviews (ratedOnce.map Row.of) oneReader) = .ok restored ∧
      loadRatings (restored.tables .reviews) "a" =
        [⟨1, some 9, none, some "better", false, some 20, some 20, 20⟩] := by
  have valid := only_table_valid .reviews oneReader ratedTwice (by decide) (by decide)
  obtain ⟨restored, run, rows⟩ := reviews_fold_and_return.2.2 "a" "b" 100 _ _
    (onlyTable .reviews (ratedOnce.map Row.of) oneReader) [] [] (by decide) valid
    (by decide) (move_progress_and_history "a" "b" 100 (by decide) _ valid)
    (only_table_valid .reviews oneReader ratedOnce (by decide) (by decide))
    (by decide +kernel) (fun _ _ => List.not_mem_nil) fun _ _ => List.not_mem_nil
  refine ⟨restored, run, (rows "a" (by simp)).1.trans ?_⟩
  decide +kernel

end Example

end Omnibus.Merge
