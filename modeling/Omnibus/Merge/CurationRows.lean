import Mathlib.Order.Basic
import Mathlib.Tactic.Tauto
import Mathlib.Algebra.Order.Ring.Int
import Omnibus.Merge.Curation

/-!
# The rows of a book, by reader

Writing, clearing and loading in terms of which rows a book holds. A book's loaded rows are
determined by that, since no reader has two.
-/

namespace Omnibus.Merge

open Omnibus.Library.Sql

structure OnePerReader (table : DbTable) : Prop where
  keyed : Keyed [[.userId, .bookUuid]] table.rows
  readers : ∀ row ∈ table.rows, ∃ user : Int, row .userId = .integer user

variable {T : Type} [CurationRow T] {table : DbTable}

theorem mem_load_rows (book : Uuid) (row : T) :
    row ∈ loadRows table book ↔
      ∃ stored ∈ table.rows, onBook book stored = true ∧ CurationRow.ofRow stored = row := by
  simp only [loadRows, List.mem_mergeSort, List.mem_map, List.mem_filter, and_assoc]

theorem reader_of_row {stored : DbRow} {user : Int} (isUser : stored .userId = .integer user) :
    CurationRow.userId (CurationRow.ofRow stored : T) = user := by
  rw [CurationRow.user_of_row, isUser]
  rfl

namespace OnePerReader

theorem of_keyed {keys : List (List ColumnName)} (member : [.userId, .bookUuid] ∈ keys)
    (keyed : Keyed keys table.rows)
    (readers : ∀ row ∈ table.rows, ∃ user : Int, row .userId = .integer user) :
    OnePerReader table where
  keyed := by
    refine List.Pairwise.imp (fun {left right} apart key isKey => ?_) keyed
    rw [List.mem_singleton.mp isKey]
    exact apart _ member
  readers := readers

theorem eq_of_reader (one : OnePerReader table) {left right : DbRow}
    (leftMem : left ∈ table.rows) (rightMem : right ∈ table.rows) (book : Uuid)
    (leftBook : onBook book left = true) (rightBook : onBook book right = true)
    (sameReader : left .userId = right .userId) : left = right := by
  obtain ⟨user, isUser⟩ := one.readers left leftMem
  rw [on_book_iff] at leftBook rightBook
  apply one.keyed.eq_of_agree leftMem rightMem _ (List.mem_singleton_self _)
  rw [agree_iff]
  intro column member
  simp only [List.mem_cons, List.not_mem_nil, or_false] at member
  rcases member with rfl | rfl
  · exact ⟨by simp [isUser], sameReader⟩
  · exact ⟨by simp [leftBook], leftBook.trans rightBook.symm⟩

theorem loaded_readers (one : OnePerReader table) (book : Uuid) :
    ((loadRows table book : List T).map CurationRow.userId).Nodup := by
  have sorted : (loadRows table book : List T).Perm
      ((table.rows.filter (onBook book)).map CurationRow.ofRow) := List.mergeSort_perm _ _
  apply (sorted.map _).nodup_iff.mpr
  rw [List.map_map, List.Nodup, List.pairwise_map]
  have apart : Keyed [[.userId, .bookUuid]] (table.rows.filter (onBook book)) :=
    one.keyed.sublist List.filter_sublist
  refine List.Pairwise.imp_of_mem (fun {left right} leftMem rightMem differ same => ?_) apart
  rw [List.mem_filter] at leftMem rightMem
  obtain ⟨user, isUser⟩ := one.readers left leftMem.1
  obtain ⟨other, isOther⟩ := one.readers right rightMem.1
  simp only [Function.comp, reader_of_row isUser, reader_of_row isOther] at same
  have agreed : agree [.userId, .bookUuid] left right = true := by
    have leftBook := (on_book_iff book left).mp leftMem.2
    have rightBook := (on_book_iff book right).mp rightMem.2
    simp [agree_iff, isUser, isOther, same, leftBook, rightBook]
  rw [differ _ (List.mem_singleton_self _)] at agreed
  cases agreed

theorem load_rows_eq {other : DbTable} (one : OnePerReader table) (also : OnePerReader other)
    (book : Uuid) (same : ∀ row : T, row ∈ loadRows table book ↔ row ∈ loadRows other book) :
    (loadRows table book : List T) = loadRows other book := by
  have ordered (any : DbTable) : (loadRows any book : List T).Pairwise
      fun left right => CurationRow.userId left ≤ CurationRow.userId right := by
    have sorted : (loadRows any book : List T).Pairwise fun left right =>
        decide (CurationRow.userId left ≤ CurationRow.userId right) = true :=
      List.pairwise_mergeSort (fun first second third below above => by
        simp only [decide_eq_true_eq] at below above ⊢
        exact below.trans above)
      (fun left right => by
        simp only [Bool.or_eq_true, decide_eq_true_eq]
        exact le_total _ _) _
    exact sorted.imp fun below => by simpa using below
  have nodup := List.Nodup.of_map _ (one.loaded_readers (T := T) book)
  have alsoNodup := List.Nodup.of_map _ (also.loaded_readers (T := T) book)
  have perm := (List.perm_ext_iff_of_nodup nodup alsoNodup).mpr same
  refine perm.eq_of_pairwise (fun left right leftMem rightMem below above => ?_) (ordered table)
    (ordered other)
  exact List.inj_on_of_nodup_map (one.loaded_readers book) leftMem ((same right).mpr rightMem)
    (le_antisymm below above)

end OnePerReader

theorem by_user_eq_some (one : OnePerReader table) (book : Uuid) (user : Int) (row : T) :
    byUser (loadRows table book : List T) user = some row ↔
      row ∈ (loadRows table book : List T) ∧ CurationRow.userId row = user := by
  constructor
  · intro found
    exact ⟨List.mem_of_find?_eq_some found, by simpa using List.find?_some found⟩
  · intro ⟨member, equal⟩
    subst equal
    cases found : byUser (loadRows table book : List T) (CurationRow.userId row) with
    | none =>
        have absent := List.find?_eq_none.mp found row member
        simp at absent
    | some other =>
        have otherMem := List.mem_of_find?_eq_some found
        have sameReader : CurationRow.userId other = CurationRow.userId row := by
          simpa using List.find?_some found
        rw [List.inj_on_of_nodup_map (one.loaded_readers book) otherMem member sameReader]

section Writes

theorem is_row_iff (book : Uuid) (user : Int) (stored : DbRow) :
    isRow book user stored = true ↔
      stored .userId = .integer user ∧ onBook book stored = true := by
  simp only [isRow, Bool.and_eq_true, Value.equals_iff, and_congr_left_iff, and_iff_right_iff_imp]
  rintro - isUser
  rw [isUser]
  nofun

theorem write_on_book (row : T) (book : Uuid) (stored : DbRow) :
    onBook book (CurationRow.write row stored) = onBook book stored := by
  simp only [onBook, CurationRow.write_keeps row stored .bookUuid (by simp)]

theorem write_reader (row : T) (stored : DbRow) :
    CurationRow.write row stored .userId = stored .userId :=
  CurationRow.write_keeps row stored .userId (by simp)

theorem write_row_rows (book : Uuid) (row : T) (table : DbTable) (one : OnePerReader table) :
    ∃ written, isRow book (CurationRow.userId row) written = true ∧
      (CurationRow.Exact row → CurationRow.ofRow written = row) ∧
      ∀ stored, stored ∈ (writeRow book row table).rows ↔
        stored = written ∨
          (stored ∈ table.rows ∧ isRow book (CurationRow.userId row) stored = false) := by
  unfold writeRow
  by_cases stored : table.rows.any (isRow book (CurationRow.userId row)) = true
  · obtain ⟨old, oldMem, isOld⟩ := List.any_eq_true.mp stored
    have onlyOld : ∀ other ∈ table.rows, isRow book (CurationRow.userId row) other = true →
        other = old := by
      intro other otherMem isOther
      rw [is_row_iff] at isOld isOther
      exact one.eq_of_reader otherMem oldMem book isOther.2 isOld.2 (isOther.1.trans isOld.1.symm)
    refine ⟨CurationRow.write row old, ?_, ?_, fun found => ?_⟩
    · rw [is_row_iff] at isOld ⊢
      rwa [write_reader, write_on_book]
    · intro exact
      apply CurationRow.of_write row old exact
      rw [((is_row_iff _ _ _).mp isOld).1]
      rfl
    · rw [if_pos stored, Table.update_rows, List.mem_map]
      constructor
      · intro ⟨other, otherMem, equal⟩
        subst equal
        split
        · rename_i isOther
          exact .inl (by rw [onlyOld other otherMem isOther])
        · rename_i isOther
          exact .inr ⟨otherMem, by simpa using isOther⟩
      · rintro (rfl | ⟨otherMem, isOther⟩)
        · exact ⟨old, oldMem, if_pos isOld⟩
        · exact ⟨found, otherMem, if_neg (by simpa using isOther)⟩
  · rw [Bool.not_eq_true] at stored
    have absent : ∀ other ∈ table.rows, isRow book (CurationRow.userId row) other = false := by
      simpa using stored
    refine ⟨CurationRow.write row (blankRow (table.nextRowid true) book
      (CurationRow.userId row)), ?_, fun exact => ?_, fun found => ?_⟩
    · rw [is_row_iff, write_reader, write_on_book, on_book_iff]
      exact ⟨rfl, rfl⟩
    · exact CurationRow.of_write row _ exact rfl
    · simp only [stored, Bool.false_eq_true, if_false, Table.append_rows, List.mem_append,
        List.mem_singleton]
      constructor
      · rintro (member | rfl)
        · exact .inr ⟨member, absent found member⟩
        · exact .inl rfl
      · rintro (rfl | ⟨member, _⟩)
        · exact .inr rfl
        · exact .inl member

theorem write_row_one (book : Uuid) (row : T) (one : OnePerReader table) :
    OnePerReader (writeRow book row table) := by
  have reader (stored : DbRow) (other : Value) (isOther : stored .userId = other) :
      CurationRow.write row stored .userId = other := (write_reader row stored).trans isOther
  unfold writeRow
  split
  · constructor
    · rw [Table.update_rows]
      apply one.keyed.map _
      intro stored _ key isKey column member
      rw [List.mem_singleton.mp isKey] at member
      split
      · apply CurationRow.write_keeps row stored column
        simp only [List.mem_cons, List.not_mem_nil, or_false] at member ⊢
        exact .inr member
      · rfl
    · intro stored member
      rw [Table.update_rows, List.mem_map] at member
      obtain ⟨old, oldMem, rfl⟩ := member
      obtain ⟨user, isUser⟩ := one.readers old oldMem
      refine ⟨user, ?_⟩
      split
      · exact reader old _ isUser
      · exact isUser
  · rename_i absent
    constructor
    · rw [Table.append_rows, Keyed.append_iff]
      refine ⟨one.keyed, List.pairwise_singleton _ _, fun left leftMem right rightMem key isKey => ?_⟩
      rw [List.mem_singleton] at rightMem
      rw [List.mem_singleton.mp isKey, rightMem, Bool.eq_false_iff]
      intro agreed
      refine absent (List.any_eq_true.mpr ⟨left, leftMem, ?_⟩)
      rw [agree_iff] at agreed
      obtain ⟨_, sameReader⟩ := agreed .userId (by simp)
      obtain ⟨_, sameBook⟩ := agreed .bookUuid (by simp)
      rw [write_reader] at sameReader
      rw [CurationRow.write_keeps row _ .bookUuid (by simp)] at sameBook
      exact (is_row_iff _ _ _).mpr ⟨sameReader, (on_book_iff _ _).mpr sameBook⟩
    · intro stored member
      rw [Table.append_rows, List.mem_append, List.mem_singleton] at member
      rcases member with member | rfl
      · exact one.readers stored member
      · exact ⟨CurationRow.userId row, reader _ _ rfl⟩

theorem mem_load_write_other (one : OnePerReader table) (book other : Uuid) (row found : T)
    (apart : other ≠ book ∨ CurationRow.userId found ≠ CurationRow.userId row) :
    found ∈ loadRows (writeRow book row table) other ↔ found ∈ loadRows table other := by
  obtain ⟨written, isWritten, _, rows⟩ := write_row_rows book row table one
  have notRow (stored : DbRow) (onOther : onBook other stored = true)
      (isFound : CurationRow.ofRow stored = found) :
      isRow book (CurationRow.userId row) stored = false := by
    rw [Bool.eq_false_iff]
    intro isRow
    obtain ⟨isReader, onBook⟩ := (is_row_iff _ _ _).mp isRow
    rcases apart with otherBook | otherReader
    · rw [on_book_iff] at onOther onBook
      exact otherBook (by injection onOther.symm.trans onBook)
    · rw [← isFound, reader_of_row isReader] at otherReader
      exact otherReader rfl
  rw [mem_load_rows, mem_load_rows]
  constructor
  · intro ⟨stored, member, onOther, isFound⟩
    rcases (rows stored).mp member with rfl | ⟨member, _⟩
    · rw [notRow stored onOther isFound] at isWritten
      cases isWritten
    · exact ⟨stored, member, onOther, isFound⟩
  · intro ⟨stored, member, onOther, isFound⟩
    exact ⟨stored, (rows stored).mpr (.inr ⟨member, notRow stored onOther isFound⟩), onOther,
      isFound⟩

theorem mem_load_write (one : OnePerReader table) (book : Uuid) (row found : T)
    (exact : CurationRow.Exact row) :
    found ∈ loadRows (writeRow book row table) book ↔
      found = row ∨
        (found ∈ loadRows table book ∧ CurationRow.userId found ≠ CurationRow.userId row) := by
  obtain ⟨written, isWritten, readsBack, rows⟩ := write_row_rows book row table one
  by_cases sameReader : CurationRow.userId found = CurationRow.userId row
  · simp only [sameReader, ne_eq, not_true_eq_false, and_false, or_false]
    rw [mem_load_rows]
    constructor
    · intro ⟨stored, member, onBook, isFound⟩
      rcases (rows stored).mp member with rfl | ⟨member, notRow⟩
      · exact isFound.symm.trans (readsBack exact)
      · obtain ⟨user, isUser⟩ := one.readers stored member
        rw [← isFound, reader_of_row isUser] at sameReader
        have isRow := (is_row_iff book (CurationRow.userId row) stored).mpr
          ⟨isUser.trans (congrArg _ sameReader), onBook⟩
        rw [notRow] at isRow
        cases isRow
    · intro equal
      subst equal
      exact ⟨written, (rows written).mpr (.inl rfl), ((is_row_iff _ _ _).mp isWritten).2,
        readsBack exact⟩
  · rw [mem_load_write_other one book book row found (.inr sameReader)]
    have different : found ≠ row := fun same => sameReader (congrArg _ same)
    simp [different, sameReader]

theorem write_rows_one (book : Uuid) (rows : List T) (one : OnePerReader table) :
    OnePerReader (rows.foldl (fun table row => writeRow book row table) table) := by
  induction rows generalizing table with
  | nil => exact one
  | cons row rest induction => exact induction (write_row_one book row one)

theorem mem_load_writes_other (one : OnePerReader table) (book other : Uuid) (rows : List T)
    (found : T)
    (apart : ∀ row ∈ rows, other ≠ book ∨ CurationRow.userId found ≠ CurationRow.userId row) :
    found ∈ loadRows (rows.foldl (fun table row => writeRow book row table) table) other ↔
      found ∈ loadRows table other := by
  induction rows generalizing table with
  | nil => exact Iff.rfl
  | cons row rest induction =>
      rw [List.foldl_cons, induction (write_row_one book row one)
        fun later member => apart later (List.mem_cons_of_mem _ member)]
      exact mem_load_write_other one book other row found (apart row List.mem_cons_self)

/-- After writing rows of distinct readers, the book holds them and the other readers' rows. -/
theorem mem_load_writes (one : OnePerReader table) (book : Uuid) (rows : List T) (found : T)
    (exact : ∀ row ∈ rows, CurationRow.Exact row)
    (distinct : (rows.map CurationRow.userId).Nodup) :
    found ∈ loadRows (rows.foldl (fun table row => writeRow book row table) table) book ↔
      found ∈ rows ∨ (found ∈ loadRows table book ∧
        CurationRow.userId found ∉ rows.map CurationRow.userId) := by
  induction rows generalizing table with
  | nil => simp
  | cons row rest induction =>
      rw [List.map_cons, List.nodup_cons] at distinct
      rw [List.foldl_cons, induction (write_row_one book row one)
        (fun later member => exact later (List.mem_cons_of_mem _ member)) distinct.2,
        mem_load_write one book row found (exact row List.mem_cons_self)]
      by_cases same : found = row
      · subst same
        simp [distinct.1]
      · simp only [same, false_or, List.mem_cons, List.map_cons, not_or]
        tauto

end Writes

section Clears

theorem clear_row_one (book : Uuid) (user : Int) (one : OnePerReader table) :
    OnePerReader (clearRow book table user) where
  keyed := by
    rw [clearRow, Table.delete_rows]
    exact one.keyed.sublist List.filter_sublist
  readers := by
    intro row member
    rw [clearRow, Table.delete_rows] at member
    exact one.readers row (List.mem_of_mem_filter member)

theorem mem_load_clear (one : OnePerReader table) (book other : Uuid) (user : Int) (found : T) :
    found ∈ loadRows (clearRow book table user) other ↔
      found ∈ loadRows table other ∧ (other = book → CurationRow.userId found ≠ user) := by
  have deleted (stored : DbRow) : stored ∈ (clearRow book table user).rows ↔
      stored ∈ table.rows ∧ isRow book user stored = false := by
    rw [clearRow, Table.delete_rows, List.mem_filter, Bool.not_eq_true']
  rw [mem_load_rows, mem_load_rows]
  constructor
  · intro ⟨stored, remains, onOther, isFound⟩
    obtain ⟨member, notRow⟩ := (deleted stored).mp remains
    refine ⟨⟨stored, member, onOther, isFound⟩, ?_⟩
    intro equal isReader
    subst equal
    obtain ⟨reader, isUser⟩ := one.readers stored member
    rw [← isFound, reader_of_row isUser] at isReader
    have isRow := (is_row_iff other user stored).mpr ⟨isUser.trans (congrArg _ isReader), onOther⟩
    rw [notRow] at isRow
    cases isRow
  · intro ⟨⟨stored, member, onOther, isFound⟩, otherReader⟩
    refine ⟨stored, (deleted stored).mpr ⟨member, ?_⟩, onOther, isFound⟩
    rw [Bool.eq_false_iff]
    intro isRow
    obtain ⟨isReader, isBook⟩ := (is_row_iff _ _ _).mp isRow
    rw [on_book_iff] at onOther isBook
    have sameBook : other = book := by injection onOther.symm.trans isBook
    exact otherReader sameBook (by rw [← isFound, reader_of_row isReader])

theorem clear_rows_one (book : Uuid) (users : List Int) (one : OnePerReader table) :
    OnePerReader (users.foldl (clearRow book) table) := by
  induction users generalizing table with
  | nil => exact one
  | cons user rest induction => exact induction (clear_row_one book user one)

theorem mem_load_clears (one : OnePerReader table) (book other : Uuid) (users : List Int)
    (found : T) :
    found ∈ loadRows (users.foldl (clearRow book) table) other ↔
      found ∈ loadRows table other ∧ (other = book → CurationRow.userId found ∉ users) := by
  induction users generalizing table with
  | nil => simp
  | cons user rest induction =>
      rw [List.foldl_cons, induction (clear_row_one book user one),
        mem_load_clear one book other user found]
      simp only [List.mem_cons, not_or]
      tauto

end Clears

end Omnibus.Merge
