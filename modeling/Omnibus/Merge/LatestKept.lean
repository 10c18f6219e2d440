import Omnibus.Merge.Merged

/-!
# The row a merge keeps by its stamp

Of two rows of one key, some tables keep the one written last, and the target's on a tie.
What the merge leaves of the two is that row, carried over to the target.
-/

namespace Omnibus.Merge

open Omnibus.Library.Sql

/-- Collisions of the table on these columns go by the stamp of the last write. -/
structure LatestKept (name : TableName) (keys : List ColumnName) : Prop where
  ruled : rule name = some ⟨name, keys, .max .updatedAt⟩
  keyed : ∃ key ∈ name.keys, ∀ column ∈ key, column = .bookUuid ∨ column ∈ keys
  apart : .bookUuid ∉ keys
  numbered : [.id] ∈ name.keys ∧ .id ∈ name.primaryKey
  plain : ∀ source target table row, adjust source target name table row = row
  unreviewed : ∀ source target table, reviewed source target name table = table
  stamped : name ≠ .annotations

/-- The rows a book holds under the key of `row`. -/
def heldRows (name : TableName) (keys : List ColumnName) (book : Uuid) (row : DbRow) (db : Db) :
    List DbRow :=
  (db.tables name).rows.filter fun other => onBook book other && agree keys other row

def latest (sourceRow targetRow : DbRow) : DbRow :=
  if (sourceRow .updatedAt).atMost (targetRow .updatedAt) then targetRow else sourceRow

section Held

variable {name : TableName} {keys : List ColumnName} {source target : Uuid} {now : Int} {db : Db}
  {sourceRow targetRow : DbRow} (kind : LatestKept name keys)
include kind

theorem LatestKept.unique (valid : db.Valid) {book : Uuid} {left right : DbRow}
    (leftMem : left ∈ (db.tables name).rows) (rightMem : right ∈ (db.tables name).rows)
    (leftBook : onBook book left = true) (rightBook : onBook book right = true)
    (agreed : agree keys left right = true) : left = right := by
  obtain ⟨key, keyMem, columns⟩ := kind.keyed
  apply (valid name).keyed.eq_of_agree leftMem rightMem key keyMem
  rw [agree_iff] at agreed ⊢
  rw [on_book_iff] at leftBook rightBook
  intro column member
  rcases columns column member with rfl | inKeys
  · exact ⟨by rw [leftBook]; nofun, leftBook.trans rightBook.symm⟩
  · exact agreed column inKeys

theorem LatestKept.carry_row (row : DbRow)
    (carried : onBook source row = true ∨ onBook target row = true) (different : source ≠ target)
    (table : DbTable) :
    carry source target now name table row = Function.update row .bookUuid (.text target) := by
  have retargeted : retargetSet name target now row =
      Function.update row .bookUuid (.text target) := by
    unfold retargetSet
    split
    · exact absurd rfl kind.stamped
    · rfl
  rcases carried with onSource | onTarget
  · rw [carry, kind.plain, if_pos onSource, retargeted]
  · have notSource : onBook source row = false := on_book_exclusive different.symm onTarget
    rw [carry, kind.plain, notSource, if_neg Bool.false_ne_true]
    rw [on_book_iff] at onTarget
    rw [← onTarget, Function.update_eq_self]

omit kind in
theorem latest_cases : latest sourceRow targetRow = targetRow ∨
    latest sourceRow targetRow = sourceRow := by
  unfold latest
  split
  · exact .inl rfl
  · exact .inr rfl

omit kind in
theorem latest_agrees (agreed : agree keys sourceRow targetRow = true) :
    agree keys (latest sourceRow targetRow) targetRow = true := by
  rcases @latest_cases sourceRow targetRow with same | same
  · rw [same]
    rw [agree_iff] at agreed ⊢
    exact fun column member => ⟨(agreed column member).2 ▸ (agreed column member).1, rfl⟩
  · rwa [same]

/-- No other row of the two books has the key, so nothing beats the later of the two. -/
theorem LatestKept.latest_kept (different : source ≠ target) (valid : db.Valid)
    (sourceMem : sourceRow ∈ (db.tables name).rows)
    (targetMem : targetRow ∈ (db.tables name).rows)
    (onSource : onBook source sourceRow = true) (onTarget : onBook target targetRow = true)
    (agreed : agree keys sourceRow targetRow = true) :
    kept source target name (db.tables name) (latest sourceRow targetRow) = true := by
  rw [latest]
  simp only [kept, kind.ruled]
  split
  · -- every source row of the pair is the one the target row beats
    rename_i targetFirst
    have notSource : onBook source targetRow = false :=
      on_book_exclusive different.symm onTarget
    simp only [survives, notSource, onTarget, Bool.false_eq_true, if_false, if_true,
      reduceCtorEq, decide_false, Bool.false_or, Bool.not_eq_true', List.any_eq_false,
      Bool.and_eq_true, not_and, Bool.not_eq_true', and_imp]
    intro other otherMem otherSource unbeaten otherAgreed
    have same : other = sourceRow := kind.unique valid otherMem sourceMem otherSource
      onSource (agree_trans otherAgreed ((agree_comm _ _ _).trans agreed))
    subst same
    have beats : beaten target ⟨name, keys, .max .updatedAt⟩ (db.tables name).rows other =
        true := by
      simp only [beaten, List.any_eq_true, Bool.and_eq_true]
      exact ⟨targetRow, targetMem, ⟨onTarget, (agree_comm _ _ _).trans agreed⟩, targetFirst⟩
    rw [beats] at unbeaten
    cases unbeaten
  · rename_i sourceFirst
    simp only [survives, onSource, if_true, Bool.not_eq_true', beaten, List.any_eq_false,
      Bool.and_eq_true, not_and, and_imp]
    intro other otherMem otherTarget otherAgreed wins
    have same : other = targetRow := kind.unique valid otherMem targetMem otherTarget
      onTarget (agree_trans otherAgreed agreed)
    subst same
    exact sourceFirst wins

variable (source target now) in
theorem LatestKept.held (different : source ≠ target) (valid : db.Valid)
    (sourceMem : sourceRow ∈ (db.tables name).rows)
    (targetMem : targetRow ∈ (db.tables name).rows)
    (onSource : onBook source sourceRow = true) (onTarget : onBook target targetRow = true)
    (agreed : agree keys sourceRow targetRow = true) :
    heldRows name keys target targetRow (mergedDb source target now db) =
      [Function.update (latest sourceRow targetRow) .bookUuid (.text target)] := by
  have winnerKept :=
    kind.latest_kept different valid sourceMem targetMem onSource onTarget agreed
  have winnerAgrees : agree keys (latest sourceRow targetRow) targetRow = true :=
    latest_agrees agreed
  set table := db.tables name with isTable
  have winnerMem : latest sourceRow targetRow ∈ table.rows := by
    rcases @latest_cases sourceRow targetRow with same | same
    · rwa [same]
    · rwa [same]
  have winnerBook : onBook source (latest sourceRow targetRow) = true ∨
      onBook target (latest sourceRow targetRow) = true := by
    rcases @latest_cases sourceRow targetRow with same | same
    · rw [same]
      exact .inr onTarget
    · rw [same]
      exact .inl onSource
  generalize latest sourceRow targetRow = winner at *
  have rows : ((mergedDb source target now db).tables name).rows =
      (table.rows.filter (kept source target name table)).map
        (carry source target now name table) := by
    change (mergedTable source target now name (reviewed source target name table)).rows = _
    rw [kind.unreviewed]
    exact merged_rows source target now different name table
  have keyed := merged_keyed source target now different name table (valid name).keyed
  obtain ⟨key, keyMem, columns⟩ := kind.keyed
  rw [heldRows, rows, ← kind.carry_row winner winnerBook different table]
  refine Keyed.eq_singleton
    ((merged_rows source target now different _ table ▸ keyed).sublist List.filter_sublist)
    ?_ key keyMem ?_
  · rw [List.mem_filter]
    refine ⟨List.mem_map_of_mem (List.mem_filter.mpr ⟨winnerMem, winnerKept⟩), ?_⟩
    rw [kind.carry_row winner winnerBook different, Bool.and_eq_true]
    refine ⟨by simp [on_book_iff], (agree_congr ?_ fun _ _ => rfl).trans winnerAgrees⟩
    intro column member
    have other : column ≠ .bookUuid := by
      intro equal
      subst equal
      exact kind.apart member
    rw [Function.update_of_ne other]
  · intro other member
    rw [List.mem_filter, Bool.and_eq_true] at member
    obtain ⟨_, onTarget, otherAgreed⟩ := member
    rw [kind.carry_row winner winnerBook different]
    rw [on_book_iff] at onTarget
    rw [agree_iff] at otherAgreed winnerAgrees ⊢
    intro column member
    rcases columns column member with rfl | inKeys
    · rw [onTarget, Function.update_self]
      exact ⟨nofun, rfl⟩
    · obtain ⟨present, same⟩ := otherAgreed column inKeys
      have other : column ≠ .bookUuid := by
        intro equal
        subst equal
        exact kind.apart inKeys
      rw [Function.update_of_ne other]
      exact ⟨present, same.trans (winnerAgrees column inKeys).2.symm⟩

theorem LatestKept.carried_apart (different : source ≠ target) (valid : db.Valid)
    (sourceMem : sourceRow ∈ (db.tables name).rows)
    (targetMem : targetRow ∈ (db.tables name).rows)
    (onSource : onBook source sourceRow = true) (onTarget : onBook target targetRow = true) :
    Function.update sourceRow .bookUuid (.text target) ≠
      Function.update targetRow .bookUuid (.text target) := by
  intro same
  have sameId : sourceRow .id = targetRow .id := by
    simpa using congrFun same .id
  have merged : sourceRow = targetRow := by
    apply (valid name).keyed.eq_of_agree sourceMem targetMem [.id] kind.numbered.1
    rw [agree_iff]
    simp only [List.mem_singleton, forall_eq]
    exact ⟨(valid name).present sourceRow sourceMem .id
      (List.mem_cons_of_mem _ kind.numbered.2), sameId⟩
  rw [merged] at onSource
  rw [on_book_exclusive different onSource] at onTarget
  cases onTarget

end Held

theorem latest_progress : LatestKept .readingProgress [.userId, .format] where
  ruled := rfl
  keyed := ⟨[.userId, .bookUuid, .format], by decide, by decide⟩
  apart := by decide
  numbered := by decide
  plain _ _ _ _ := rfl
  unreviewed _ _ _ := rfl
  stamped := by decide

theorem latest_status : LatestKept .bookReadStatus [.userId] where
  ruled := rfl
  keyed := ⟨[.userId, .bookUuid], by decide, by decide⟩
  apart := by decide
  numbered := by decide
  plain _ _ _ _ := rfl
  unreviewed _ _ _ := rfl
  stamped := by decide

end Omnibus.Merge
