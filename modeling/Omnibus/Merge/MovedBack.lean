import Omnibus.Merge.Recorded

/-!
# Sending the moved rows back

Undo names each moved row by its identity. On the target that names one row, so the rows go
back one by one and nothing else changes, whatever else the table has come to hold.
-/

namespace Omnibus.Merge

open Omnibus.Library.Sql

theorem primary_key_columns (name : TableName) : ∀ column ∈ name.primaryKey,
    column = .bookUuid ∨ column ∈ identity name := by
  cases name <;> decide

/-- Rows `moved` of the source, carried over to the target, beside rows that are not the
source's. -/
structure Carried (source target : Uuid) (name : TableName) (moved : List DbRow)
    (image : DbRow → DbRow) (others : List DbRow) : Prop where
  different : source ≠ target
  keyed : Keyed name.keys (moved.map image ++ others)
  onTarget : ∀ row ∈ moved, image row .bookUuid = .text target
  fields : ∀ row ∈ moved, ∀ column, column ≠ .bookUuid → column ≠ .sittingObservedAt →
    (name = .annotations → column ≠ .updatedAt) → image row column = row column
  foreign : ∀ row ∈ others, onBook source row = false

section Loop

variable {source target : Uuid} {now : Int} {name : TableName} {moved others : List DbRow}
  {image : DbRow → DbRow}

namespace Carried

variable (carried : Carried source target name moved image others)

theorem image_identity (carried : Carried source target name moved image others) {row : DbRow}
    (member : row ∈ moved) {column : ColumnName} (named : column ∈ identity name) :
    image row column = row column := by
  obtain ⟨_, inKey, notBook⟩ := identity_columns name column named
  obtain ⟨clock, _, stamp⟩ := key_columns name name.primaryKey List.mem_cons_self column inKey
  exact carried.fields row member column notBook clock fun _ => stamp

theorem split_keyed {done rest : List DbRow}
    (carried : Carried source target name (done ++ rest) image others) :
    Keyed name.keys
      (done.map (fun row => retargetSet name source now (image row)) ++
        (rest.map image ++ others)) := by
  have keyed := carried.keyed
  rw [List.map_append, List.append_assoc, Keyed.append_iff] at keyed
  obtain ⟨doneKeyed, restKeyed, apart⟩ := keyed
  have kept (row : DbRow) {key : List ColumnName} (isKey : key ∈ name.keys) {column : ColumnName}
      (member : column ∈ key) (notBook : column ≠ .bookUuid) :
      retargetSet name source now (image row) column = image row column :=
    retarget_set_of_ne now name source _ notBook
      fun _ => (key_columns name key isKey column member).2.2
  rw [Keyed.append_iff]
  refine ⟨?_, restKeyed, ?_⟩
  · rw [Keyed, List.pairwise_map] at doneKeyed ⊢
    refine List.Pairwise.imp_of_mem (fun {left right} leftMem rightMem distinct key isKey => ?_)
      doneKeyed
    rw [Bool.eq_false_iff]
    intro agreed
    have clash : agree key (image left) (image right) = true := by
      rw [agree_iff] at agreed ⊢
      intro column member
      by_cases book : column = .bookUuid
      · subst book
        rw [carried.onTarget left (by simp [leftMem]), carried.onTarget right (by simp [rightMem])]
        exact ⟨by simp, rfl⟩
      · rw [← kept left isKey member book, ← kept right isKey member book]
        exact agreed column member
    rw [distinct key isKey] at clash
    cases clash
  · intro left leftMem right rightMem key isKey
    obtain ⟨row, rowMem, rfl⟩ := List.mem_map.mp leftMem
    rw [Bool.eq_false_iff]
    intro agreed
    rw [agree_iff] at agreed
    by_cases book : .bookUuid ∈ key
    · have shared := (agreed .bookUuid book).2
      rw [retarget_set_book] at shared
      rw [List.mem_append] at rightMem
      rcases rightMem with isRest | isOther
      · obtain ⟨other, otherMem, rfl⟩ := List.mem_map.mp isRest
        rw [carried.onTarget other (by simp [otherMem])] at shared
        exact carried.different (by injection shared)
      · have foreign := carried.foreign right isOther
        rw [(on_book_iff source right).mpr shared.symm] at foreign
        cases foreign
    · have clash : agree key (image row) right = true := by
        rw [agree_iff]
        intro column member
        have notBook : column ≠ .bookUuid := fun same => book (same ▸ member)
        rw [← kept row isKey member notBook]
        exact agreed column member
      rw [apart (image row) (List.mem_map_of_mem rowMem) right rightMem key isKey] at clash
      cases clash

theorem identity_names_one {done rest : List DbRow} {row : DbRow}
    (carried : Carried source target name (done ++ row :: rest) image others) {other : DbRow}
    (member : other ∈ rest.map image ++ others) :
    (onBook target other && idMatch (record id (identity name) row) other) = false := by
  rw [id_match_record, Bool.eq_false_iff, ne_eq, Bool.and_eq_true]
  intro ⟨onTarget, agreed⟩
  have keyed := carried.keyed
  rw [List.map_append, List.map_cons, List.append_assoc, List.cons_append, Keyed.append_iff]
    at keyed
  have apart := (List.pairwise_cons.mp keyed.2.1).1 other member name.primaryKey
    List.mem_cons_self
  have clash : agree name.primaryKey (image row) other = true := by
    rw [agree_iff] at agreed ⊢
    intro column inKey
    rcases primary_key_columns name column inKey with rfl | named
    · rw [carried.onTarget row (by simp), (on_book_iff target other).mp onTarget]
      exact ⟨nofun, rfl⟩
    · rw [carried.image_identity (by simp) named, ← (agreed column named).2]
      exact ⟨(agreed column named).1, rfl⟩
  rw [apart] at clash
  cases clash

theorem sent_back_off_target (carried : Carried source target name moved image others)
    (row : DbRow) : onBook target (retargetSet name source now row) = false := by
  rw [Bool.eq_false_iff]
  intro onTarget
  rw [on_book_iff, retarget_set_book] at onTarget
  exact carried.different (by injection onTarget)

theorem identity_names_image {done rest : List DbRow} {row : DbRow}
    (carried : Carried source target name (done ++ row :: rest) image others)
    (present : ∀ column ∈ identity name, row column ≠ .null) :
    (onBook target (image row) && idMatch (record id (identity name) row) (image row)) =
      true := by
  rw [id_match_record, Bool.and_eq_true, on_book_iff, agree_iff]
  refine ⟨carried.onTarget row (by simp), fun column named => ?_⟩
  rw [carried.image_identity (by simp) named]
  exact ⟨present column named, rfl⟩

theorem move_back_one {done rest : List DbRow} {row : DbRow} (table : DbTable)
    (carried : Carried source target name (done ++ row :: rest) image others)
    (present : ∀ column ∈ identity name, row column ≠ .null)
    (held : table.rows.Perm
      (done.map (fun row => retargetSet name source now (image row)) ++
        ((row :: rest).map image ++ others))) :
    ∃ after, moveBack source target now name (record id (identity name) row) table = .ok after ∧
      after.rows.Perm
        ((done ++ [row]).map (fun row => retargetSet name source now (image row)) ++
          (rest.map image ++ others)) := by
  set named : DbRow → Bool :=
    fun other => onBook target other && idMatch (record id (identity name) row) other with isNamed
  have sent : (table.update named (retargetSet name source now)).rows.Perm
      ((done ++ [row]).map (fun row => retargetSet name source now (image row)) ++
        (rest.map image ++ others)) := by
    rw [Table.update_rows]
    refine (held.map _).trans (List.Perm.of_eq ?_)
    rw [List.map_append, List.map_cons, List.cons_append, List.map_cons]
    have first : (if named (image row) = true then retargetSet name source now (image row)
        else image row) = retargetSet name source now (image row) :=
      if_pos (carried.identity_names_image present)
    have later : (rest.map image ++ others).map (fun other =>
        if named other = true then retargetSet name source now other else other) =
        rest.map image ++ others := by
      conv_rhs => rw [← List.map_id (rest.map image ++ others)]
      apply List.map_congr_left
      intro other member
      rw [isNamed]
      simp [carried.identity_names_one member]
    have earlier : (done.map fun row => retargetSet name source now (image row)).map
        (fun other => if named other = true then retargetSet name source now other else other) =
        done.map fun row => retargetSet name source now (image row) := by
      rw [List.map_map]
      apply List.map_congr_left
      intro other _
      simp [isNamed, carried.sent_back_off_target]
    rw [first, later, earlier]
    simp
  have keyed : Keyed name.keys (table.update named (retargetSet name source now)).rows := by
    have split : Carried source target name ((done ++ [row]) ++ rest) image others := by
      rwa [List.append_assoc]
    exact split.split_keyed.perm sent.symm
  exact ⟨_, if_pos keyed, sent⟩

end Carried

/-- Nothing a moved row says has changed since the record was taken. -/
def Unchanged (json : Value → Value) (name : TableName) (before : List DeletedRow)
    (image : DbRow → DbRow) (row : DbRow) : Prop :=
  ∀ recorded, before.find? (·.id = record id (identity name) row) = some recorded →
    recorded.id = record id (identity name) row ∧
      (record json name.columns (image row)).filter (fun entry => entry.1 ∉ mergeWritten) =
        recorded.row.filter fun entry => entry.1 ∉ mergeWritten

theorem restore_moved_all (json : Value → Value) (parents : Parent → List Value)
    (before : List DeletedRow) (rest : List DbRow) :
    ∀ (done : List DbRow) (table : DbTable),
      Carried source target name (done ++ rest) image others →
      (∀ row ∈ rest, ∀ column ∈ identity name, row column ≠ .null) →
      (∀ row ∈ rest, Unchanged json name before image row) →
      table.rows.Perm
        (done.map (fun row => retargetSet name source now (image row)) ++
          (rest.map image ++ others)) →
      ∃ after, (rest.map (record id (identity name))).foldlM
          (restoreMoved json source target now parents name before) table = .ok after ∧
        after.rows.Perm
          ((done ++ rest).map (fun row => retargetSet name source now (image row)) ++
            others) := by
  induction rest with
  | nil =>
      intro done table _ _ _ held
      exact ⟨table, rfl, by simpa using held⟩
  | cons row rest induction =>
      intro done table carried present unchanged held
      obtain ⟨next, sent, nextHeld⟩ := carried.move_back_one table
        (present row List.mem_cons_self) held
      have same : ∀ recorded,
          before.find? (·.id = record id (identity name) row) = some recorded →
          changedSince json target name recorded table = false := by
        intro recorded found
        obtain ⟨sameId, content⟩ := unchanged row List.mem_cons_self recorded found
        unfold changedSince
        split
        · rfl
        · rename_i stored isFound
          have storedMem := held.mem_iff.mp (List.mem_of_find?_eq_some isFound)
          have storedNamed := List.find?_some isFound
          rw [sameId] at storedNamed
          have isImage : stored = image row := by
            rw [List.mem_append, List.map_cons, List.cons_append, List.mem_cons] at storedMem
            rcases storedMem with isDone | isRow | isLater
            · obtain ⟨other, _, rfl⟩ := List.mem_map.mp isDone
              simp [carried.sent_back_off_target] at storedNamed
            · exact isRow
            · rw [carried.identity_names_one isLater] at storedNamed
              cases storedNamed
          rw [isImage, content]
          simp
      have stepped : restoreMoved json source target now parents name before table
          (record id (identity name) row) = .ok next := by
        unfold restoreMoved
        split
        · rename_i recorded found
          rw [same recorded found]
          exact sent
        · exact sent
      obtain ⟨after, run, afterHeld⟩ := induction (done ++ [row]) next
        (by rwa [List.append_assoc])
        (fun other member => present other (List.mem_cons_of_mem _ member))
        (fun other member => unchanged other (List.mem_cons_of_mem _ member)) nextHeld
      refine ⟨after, ?_, ?_⟩
      · rw [List.map_cons, List.foldlM_cons, stepped]
        exact run
      · simpa using afterHeld

end Loop

end Omnibus.Merge
