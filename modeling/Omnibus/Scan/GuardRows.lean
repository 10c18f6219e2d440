import Omnibus.Scan.Tables

/-!
# The guard rows after an undo

`merge_books` re-points the absorbed book's ledger rows and guards its own files; `undo_merge`
puts the rows back from a snapshot that has their format and library, but not their `scan_key`.
-/

namespace Omnibus.Scan

variable {ledger : List MergedUuid} {library : Library} {source : Book} {target restored : Int}

/-- The ledger once `finalize_merge` has deleted the absorbed row and what cascades from it. -/
def mergedLedger (library : Library) (source : Book) (target : Int) : List MergedUuid :=
  (rewireMergedUuidRefs library.mergedUuids source target
    (loadFileRows library source.id).nativeFormats).filter (·.bookId ≠ source.id)

/-- The ledger after `undo_merge` has recreated the absorbed row as `restored`. -/
def undoneLedger (library : Library) (source : Book) (target restored : Int) : List MergedUuid :=
  restoreAttachLedger (mergedLedger library source target) restored source.uuid
    (loadFileRows library source.id).mergedUuidRows

/-- A ledger row with the absorbed book's id replaced by the recreated one's. -/
def MergedUuid.repointed (row : MergedUuid) (source restored : Int) : MergedUuid :=
  if row.bookId = source then { row with bookId := restored } else row

/-- The ledger is what it was, at the recreated id, and has no row for the book's own uuid. -/
def GuardRowsRestored (before after : List MergedUuid) (source : Book) (restored : Int) : Prop :=
  (∀ row, row ∈ after ↔ ∃ old ∈ before, row = old.repointed source.id restored) ∧
    ∀ row ∈ after, row.uuid ≠ source.uuid

section Statements

theorem mem_insert_or_replace (row other : MergedUuid) :
    other ∈ insertOrReplace ledger row ↔
      other = row ∨ other ∈ ledger ∧ other.uuid ≠ row.uuid := by
  unfold insertOrReplace
  rw [List.mem_append, List.mem_filter, List.mem_singleton, decide_eq_true_eq, or_comm]

theorem mem_insert_guards (ledger : List MergedUuid) (formats : List String)
    (guard : String → MergedUuid) (uuid : Uuid) (own : ∀ format, (guard format).uuid = uuid)
    (row : MergedUuid) (other : row.uuid ≠ uuid) :
    row ∈ formats.foldl (fun ledger format => insertOrReplace ledger (guard format)) ledger ↔
      row ∈ ledger := by
  induction formats generalizing ledger with
  | nil => rfl
  | cons format rest induction =>
      rw [List.foldl_cons, induction, mem_insert_or_replace, own]
      constructor
      · rintro (rfl | ⟨member, _⟩)
        · exact absurd (own format) other
        · exact member
      · intro member
        exact .inr ⟨member, other⟩

theorem mem_restore_rows {Item : Type} (items : List Item) (put : Item → MergedUuid)
    (distinct : (items.map fun item => (put item).uuid).Nodup) (ledger : List MergedUuid)
    (row : MergedUuid) :
    row ∈ items.foldl (fun ledger item => insertOrReplace ledger (put item)) ledger ↔
      (∃ item ∈ items, row = put item) ∨
        row ∈ ledger ∧ ∀ item ∈ items, (put item).uuid ≠ row.uuid := by
  induction items generalizing ledger with
  | nil => simp
  | cons item rest induction =>
      rw [List.map_cons] at distinct
      obtain ⟨first, later⟩ := List.nodup_cons.mp distinct
      rw [List.foldl_cons, induction later, mem_insert_or_replace]
      simp only [List.mem_cons, exists_eq_or_imp, forall_eq_or_imp]
      constructor
      · rintro (put' | ⟨rfl | ⟨member, other⟩, absent⟩)
        · exact .inl (.inr put')
        · exact .inl (.inl rfl)
        · exact .inr ⟨member, Ne.symm other, absent⟩
      · rintro ((rfl | put') | ⟨member, other, absent⟩)
        · refine .inr ⟨.inl rfl, fun later laterMem same => first ?_⟩
          exact List.mem_map.mpr ⟨later, laterMem, same⟩
        · exact .inl put'
        · exact .inr ⟨.inr ⟨member, Ne.symm other⟩, absent⟩

end Statements

theorem mem_merged_uuid_rows (row : Uuid × String × String) :
    row ∈ (loadFileRows library source.id).mergedUuidRows ↔
      ∃ old ∈ library.mergedUuids, old.bookId = source.id ∧
        row = (old.uuid, old.format, old.libraryPath) := by
  change row ∈ List.map _ (List.insertionSort _ _) ↔ _
  simp only [List.mem_map, List.mem_insertionSort, List.mem_filter, decide_eq_true_eq]
  constructor
  · intro ⟨old, ⟨member, isSource⟩, equal⟩
    subst equal
    exact ⟨old, member, isSource, rfl⟩
  · intro ⟨old, member, isSource, equal⟩
    subst equal
    exact ⟨old, ⟨member, isSource⟩, rfl⟩

theorem merged_uuid_rows_nodup (keyed : (library.mergedUuids.map (·.uuid)).Nodup) :
    ((loadFileRows library source.id).mergedUuidRows.map (·.1)).Nodup := by
  change (List.map _ (List.map _ (List.insertionSort _ _))).Nodup
  rw [List.map_map]
  have sorted := (List.perm_insertionSort (fun left right : MergedUuid => left.uuid ≤ right.uuid)
    (library.mergedUuids.filter (·.bookId = source.id))).map (·.uuid)
  exact sorted.nodup_iff.mpr (keyed.sublist (List.filter_sublist.map _))

/-- After the merge a row of another uuid is there, at the target if it was at the source. -/
theorem mem_merged_ledger (different : source.id ≠ target) (row : MergedUuid)
    (other : row.uuid ≠ source.uuid) : row ∈ mergedLedger library source target ↔
      ∃ old ∈ library.mergedUuids, row = old.repointed source.id target := by
  unfold mergedLedger rewireMergedUuidRefs
  rw [List.mem_filter, mem_insert_guards _ _ _ source.uuid (fun _ => rfl) row other,
    List.mem_map, decide_eq_true_eq]
  constructor
  · intro ⟨⟨old, member, isRow⟩, _⟩
    exact ⟨old, member, isRow.symm⟩
  · intro ⟨old, member, equal⟩
    subst equal
    refine ⟨⟨old, member, rfl⟩, ?_⟩
    unfold MergedUuid.repointed
    split
    · exact Ne.symm different
    · assumption

/-- After the undo: the rows that pointed at the source, without their `scan_key`, and the
others. -/
theorem mem_undone_ledger (keyed : (library.mergedUuids.map (·.uuid)).Nodup)
    (different : source.id ≠ target) (row : MergedUuid) :
    row ∈ undoneLedger library source target restored ↔ row.uuid ≠ source.uuid ∧
      ((∃ old ∈ library.mergedUuids, old.bookId = source.id ∧
          row = { old with bookId := restored, scanKey := none }) ∨
        row ∈ library.mergedUuids ∧ row.bookId ≠ source.id) := by
  unfold undoneLedger restoreAttachLedger
  rw [List.mem_filter, decide_eq_true_eq, and_comm, mem_restore_rows _ _
    (merged_uuid_rows_nodup keyed)]
  apply and_congr_right
  intro other
  rw [mem_merged_ledger different row other]
  constructor
  · rintro (⟨item, itemMem, rfl⟩ | ⟨⟨old, member, rfl⟩, absent⟩)
    · obtain ⟨old, member, isSource, rfl⟩ := (mem_merged_uuid_rows item).mp itemMem
      exact .inl ⟨old, member, isSource, rfl⟩
    · have elsewhere : old.bookId ≠ source.id := by
        intro isSource
        apply absent _ ((mem_merged_uuid_rows _).mpr ⟨old, member, isSource, rfl⟩)
        rw [MergedUuid.repointed, if_pos isSource]
      rw [MergedUuid.repointed, if_neg elsewhere]
      exact .inr ⟨member, elsewhere⟩
  · rintro (⟨old, member, isSource, rfl⟩ | ⟨member, elsewhere⟩)
    · exact .inl ⟨_, (mem_merged_uuid_rows _).mpr ⟨old, member, isSource, rfl⟩, rfl⟩
    · refine .inr ⟨⟨row, member, ?_⟩, ?_⟩
      · rw [MergedUuid.repointed, if_neg elsewhere]
      · intro item itemMem same
        obtain ⟨old, oldMem, isSource, rfl⟩ := (mem_merged_uuid_rows item).mp itemMem
        rw [List.inj_on_of_nodup_map keyed oldMem member same] at isSource
        exact elsewhere isSource

/-- An undo restores the ledger exactly when no row that pointed at the source had a `scan_key`
and no row had the source's own uuid. -/
theorem guard_rows_restored_iff (library : Library) (source : Book) (target restored : Int)
    (keyed : (library.mergedUuids.map (·.uuid)).Nodup) (different : source.id ≠ target) :
    GuardRowsRestored library.mergedUuids (undoneLedger library source target restored) source
        restored ↔
      (∀ row ∈ library.mergedUuids, row.bookId = source.id → row.scanKey = none) ∧
        ∀ row ∈ library.mergedUuids, row.uuid ≠ source.uuid := by
  constructor
  · intro ⟨sameRows, _⟩
    have returned (old : MergedUuid) (member : old ∈ library.mergedUuids) :=
      (mem_undone_ledger keyed different _).mp ((sameRows _).mpr ⟨old, member, rfl⟩)
    constructor
    · intro old member isSource
      rcases (returned old member).2 with ⟨first, _, _, same⟩ | ⟨again, elsewhere⟩
      · rw [MergedUuid.repointed, if_pos isSource] at same
        exact congrArg MergedUuid.scanKey same
      · rw [MergedUuid.repointed, if_pos isSource] at again elsewhere
        have same := List.inj_on_of_nodup_map keyed again member rfl
        rw [same] at elsewhere
        exact absurd isSource elsewhere
    · intro old member isOwn
      apply (returned old member).1
      unfold MergedUuid.repointed
      split
      · exact isOwn
      · exact isOwn
  · intro ⟨bare, foreign⟩
    refine ⟨fun row => ?_, fun row member => ((mem_undone_ledger keyed different row).mp member).1⟩
    rw [mem_undone_ledger keyed different]
    constructor
    · rintro ⟨_, ⟨old, member, isSource, rfl⟩ | ⟨member, elsewhere⟩⟩
      · refine ⟨old, member, ?_⟩
        rw [MergedUuid.repointed, if_pos isSource, bare old member isSource]
      · refine ⟨row, member, ?_⟩
        rw [MergedUuid.repointed, if_neg elsewhere]
    · intro ⟨old, member, equal⟩
      subst equal
      unfold MergedUuid.repointed
      split
      · rename_i isSource
        refine ⟨foreign old member, .inl ⟨old, member, isSource, ?_⟩⟩
        rw [bare old member isSource]
      · rename_i elsewhere
        exact ⟨foreign old member, .inr ⟨member, elsewhere⟩⟩

section Example

def absorbed : Book := ⟨1, "s", "/books", "", "Dracula", some "Dracula.epub"⟩

/-- A book with its own EPUB and, when `scanKey` says where it lies, an attached audiobook. -/
def attached (scanKey : Option String) : Library where
  books := [absorbed, ⟨2, "t", "/books", "", "Drakula", some "Drakula.epub"⟩]
  files := [⟨1, 1, "EPUB", "Dracula", 10, 10, some "Dracula.epub", none, none, 0, none⟩,
    ⟨2, 1, "M4B", "Dracula", 20, 20, some "Dracula.m4b", some "/audio", some "", 0, none⟩]
  mergedUuids := [⟨"m", 1, "M4B", "/audio", scanKey⟩]

theorem guard_rows_restored_bare : GuardRowsRestored (attached none).mergedUuids
    (undoneLedger (attached none) absorbed 2 3) absorbed 3 :=
  (guard_rows_restored_iff (attached none) absorbed 2 3 (by decide) (by decide)).mpr (by decide)

/-- An attachment of the absorbed book comes back without its `scan_key`. -/
theorem guard_row_loses_scan_key :
    ¬∀ (library : Library) (source : Book) (target restored : Int),
      (library.mergedUuids.map (·.uuid)).Nodup → source.id ≠ target →
        GuardRowsRestored library.mergedUuids (undoneLedger library source target restored)
          source restored := by
  intro claimed
  have returned := (claimed (attached (some "Dracula.m4b")) absorbed 2 3 (by decide)
    (by decide)).1 ⟨"m", 3, "M4B", "/audio", some "Dracula.m4b"⟩
  revert returned
  decide

end Example

end Omnibus.Scan
