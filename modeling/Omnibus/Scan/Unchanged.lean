import Omnibus.Scan.Diff

/-!
# When every file of a listing is Unchanged

The projections have no order of their own, and two rows under one key answer for a file by
whichever comes last. A listing is settled when every order of the rows leaves every file
Unchanged: a condition on the set of rows.
-/

namespace Omnibus.Scan

variable {disk : List StatEntry} {db : List IndexedRow} {libraryRoot : String}

/-- Nothing is new, changed, moved or removed and no stat is to be filled in. -/
structure ReindexDiff.Quiet (diff : ReindexDiff) : Prop where
  new : diff.new = []
  changed : diff.changed = []
  moved : diff.moved = []
  removed : diff.removed = []
  backfill : diff.backfill = []

def IndexedRow.Settled (row : IndexedRow) (entry : StatEntry) : Prop :=
  row.hasFile = true ∧ ¬(row.mtimeEpoch = 0 ∧ row.sizeBytes = 0) ∧
    row.mtimeEpoch = entry.mtimeEpoch ∧ row.sizeBytes = entry.sizeBytes

/-- Every order of the rows leaves every file Unchanged. -/
def EveryOrderUnchanged (disk : List StatEntry) (rows : List IndexedRow) (libraryRoot : String)
    (trustworthy : Bool) : Prop :=
  ∀ db : List IndexedRow, db.Perm rows →
    (diffLibrary disk db libraryRoot trustworthy).Quiet ∧
      (diffLibrary disk db libraryRoot trustworthy).unchanged.length = (diskByKey disk).length

section Classification

theorem last_by_key_some {Item : Type} {keyOf : Item → String} {items : List Item} {key : String}
    {item : Item} (found : lastByKey keyOf items key = some item) :
    item ∈ items ∧ keyOf item = key ∧ key ≠ "" := by
  have member := List.mem_of_getLast? found
  simp only [List.mem_filter, Bool.and_eq_true, decide_eq_true_eq] at member
  obtain ⟨inItems, named, rfl⟩ := member
  exact ⟨inItems, rfl, named⟩

theorem last_by_key_of_mem {Item : Type} {keyOf : Item → String} {items : List Item}
    {item : Item} (member : item ∈ items) (named : keyOf item ≠ "") :
    ∃ found, lastByKey keyOf items (keyOf item) = some found := by
  unfold lastByKey
  cases same : items.filter fun other => keyOf other ≠ "" && keyOf other = keyOf item with
  | nil =>
      have present : item ∈ items.filter fun other =>
          keyOf other ≠ "" && keyOf other = keyOf item :=
        List.mem_filter.mpr ⟨member, by simp [named]⟩
      rw [same] at present
      exact absurd present List.not_mem_nil
  | cons first rest => exact ⟨_, List.getLast?_cons⟩

theorem last_by_key_append {Item : Type} {keyOf : Item → String} (items : List Item) {item : Item}
    (named : keyOf item ≠ "") : lastByKey keyOf (items ++ [item]) (keyOf item) = some item := by
  unfold lastByKey
  rw [List.filter_append]
  simp [named]

theorem mem_disk_by_key {entry : StatEntry} (member : entry ∈ diskByKey disk) :
    entry ∈ disk ∧ entry.scanKey ≠ "" ∧
      lastByKey StatEntry.scanKey disk entry.scanKey = some entry := by
  obtain ⟨key, _, found⟩ := List.mem_filterMap.mp member
  obtain ⟨inDisk, rfl, named⟩ := last_by_key_some found
  exact ⟨inDisk, named, found⟩

/-- What one pass over the listing leaves: a bucket entry or an arrival for each file. -/
theorem classify_arrivals_quiet_iff (entries : List StatEntry) (db : List IndexedRow)
    (libraryRoot : String) :
    ((entries.foldr (classifyArrival db libraryRoot) ({}, [])).1.changed = [] ∧
      (entries.foldr (classifyArrival db libraryRoot) ({}, [])).1.backfill = [] ∧
      (entries.foldr (classifyArrival db libraryRoot) ({}, [])).2 = []) ↔
      ∀ entry ∈ entries, ∃ row, lastByKey IndexedRow.scanKey db entry.scanKey = some row ∧
        row.Settled entry := by
  induction entries with
  | nil => simp
  | cons entry rest induction =>
      simp only [List.foldr_cons, List.forall_mem_cons]
      rw [← induction]
      unfold classifyArrival
      split
      · rename_i absent
        simp [absent]
      · rename_i row found
        simp only [found, Option.some.injEq, exists_eq_left', IndexedRow.Settled]
        split_ifs <;> simp_all

theorem classify_arrivals_unchanged (entries : List StatEntry) (db : List IndexedRow)
    (libraryRoot : String)
    (settled : ∀ entry ∈ entries, ∃ row,
      lastByKey IndexedRow.scanKey db entry.scanKey = some row ∧ row.Settled entry) :
    (entries.foldr (classifyArrival db libraryRoot) ({}, [])).1.unchanged.length =
      entries.length := by
  induction entries with
  | nil => rfl
  | cons entry rest induction =>
      obtain ⟨⟨row, found, hasFile, observed, sameStat⟩, later⟩ := List.forall_mem_cons.mp settled
      rw [List.foldr_cons, classifyArrival, found]
      simp only [hasFile, Bool.not_true, Bool.false_eq_true, if_false, if_neg observed,
        if_pos sameStat, List.length_cons, induction later]

theorem insertion_sort_nil_iff {Item : Type} (before : Item → Item → Prop)
    [DecidableRel before] (items : List Item) : items.insertionSort before = [] ↔ items = [] := by
  rw [← List.length_eq_zero_iff, List.length_insertionSort, List.length_eq_zero_iff]

theorem split_moved_quiet_iff (libraryRoot : String) (departures : List IndexedRow)
    (arrivals : List StatEntry)
    (out : ReindexDiff) :
    let split := splitMoved departures arrivals libraryRoot out
    (split.moved = [] ∧ split.new = [] ∧ split.removed = []) ↔
      departures = [] ∧ arrivals = [] := by
  constructor
  · intro ⟨moved, new, removed⟩
    have unpaired := List.map_eq_nil_iff.mp moved
    simp only [splitMoved, unpaired, List.any_nil, Bool.not_false, List.filter_true,
      List.map_eq_nil_iff, List.zipIdx_eq_nil_iff] at new removed
    exact ⟨removed, new⟩
  · rintro ⟨rfl, rfl⟩
    exact ⟨rfl, rfl, rfl⟩

end Classification

/-- The diff is quiet when every file has a row that settles it and no row misses its file. -/
theorem diff_quiet_iff (disk : List StatEntry) (db : List IndexedRow) (libraryRoot : String)
    (trustworthy : Bool) : (diffLibrary disk db libraryRoot trustworthy).Quiet ↔
      (∀ entry ∈ diskByKey disk, ∃ row,
          lastByKey IndexedRow.scanKey db entry.scanKey = some row ∧ row.Settled entry) ∧
        collectDepartures db disk trustworthy = [] := by
  rw [← classify_arrivals_quiet_iff _ db libraryRoot]
  have split := split_moved_quiet_iff libraryRoot (collectDepartures db disk trustworthy)
    (classifyArrivals disk db libraryRoot).2
    (classifyArrivals disk db libraryRoot).1
  constructor
  · intro ⟨new, changed, moved, removed, backfill⟩
    obtain ⟨noneLeft, noneCame⟩ := split.mp ⟨(insertion_sort_nil_iff _ _).mp moved,
      (insertion_sort_nil_iff _ _).mp new, (insertion_sort_nil_iff _ _).mp removed⟩
    exact ⟨⟨(insertion_sort_nil_iff _ _).mp changed, (insertion_sort_nil_iff _ _).mp backfill,
      noneCame⟩, noneLeft⟩
  · intro ⟨⟨changed, backfill, noneCame⟩, noneLeft⟩
    obtain ⟨moved, new, removed⟩ := split.mpr ⟨noneLeft, noneCame⟩
    exact ⟨(insertion_sort_nil_iff _ _).mpr new, (insertion_sort_nil_iff _ _).mpr changed,
      (insertion_sort_nil_iff _ _).mpr moved, (insertion_sort_nil_iff _ _).mpr removed,
      (insertion_sort_nil_iff _ _).mpr backfill⟩

theorem collect_departures_nil_iff (trustworthy : Bool) :
    collectDepartures db disk trustworthy = [] ↔ (trustworthy = true →
      ∀ row ∈ db, row.scanKey ≠ "" → row.hasFile = true →
        ∃ entry ∈ disk, entry.scanKey = row.scanKey) := by
  cases trustworthy with
  | false => simp [collectDepartures]
  | true => simp [collectDepartures, List.filter_eq_nil_iff]

theorem every_order_unchanged_iff (disk : List StatEntry) (rows : List IndexedRow)
    (libraryRoot : String) (trustworthy : Bool) :
    EveryOrderUnchanged disk rows libraryRoot trustworthy ↔
      (∀ entry ∈ diskByKey disk, (∃ row ∈ rows, row.scanKey = entry.scanKey) ∧
          ∀ row ∈ rows, row.scanKey = entry.scanKey → row.Settled entry) ∧
        (trustworthy = true → ∀ row ∈ rows, row.scanKey ≠ "" → row.hasFile = true →
          ∃ entry ∈ disk, entry.scanKey = row.scanKey) := by
  constructor
  · intro unchanged
    have quiet (db : List IndexedRow) (order : db.Perm rows) :=
      (diff_quiet_iff disk db libraryRoot trustworthy).mp (unchanged db order).1
    refine ⟨fun entry member => ⟨?_, fun row inRows same => ?_⟩,
      (collect_departures_nil_iff trustworthy).mp (quiet rows (.refl rows)).2⟩
    · obtain ⟨row, found, _⟩ := (quiet rows (.refl rows)).1 entry member
      obtain ⟨inRows, same, _⟩ := last_by_key_some found
      exact ⟨row, inRows, same⟩
    · -- an order in which this row comes last
      have order : (rows.erase row ++ [row]).Perm rows :=
        List.perm_append_comm.trans (List.perm_cons_erase inRows).symm
      obtain ⟨last, found, settled⟩ := (quiet _ order).1 entry member
      have named : row.scanKey ≠ "" := by
        rw [same]
        exact (mem_disk_by_key member).2.1
      rw [← same, last_by_key_append _ named, Option.some.injEq] at found
      rw [found]
      exact settled
  · intro ⟨settled, kept⟩ db order
    have answers : ∀ entry ∈ diskByKey disk, ∃ row,
        lastByKey IndexedRow.scanKey db entry.scanKey = some row ∧ row.Settled entry := by
      intro entry member
      obtain ⟨⟨row, inRows, same⟩, every⟩ := settled entry member
      have named : row.scanKey ≠ "" := by
        rw [same]
        exact (mem_disk_by_key member).2.1
      obtain ⟨found, isLast⟩ := last_by_key_of_mem (order.mem_iff.mpr inRows) named
      obtain ⟨inDb, key, _⟩ := last_by_key_some isLast
      rw [same] at isLast key
      exact ⟨found, isLast, every found (order.mem_iff.mp inDb) key⟩
    constructor
    · apply (diff_quiet_iff disk db libraryRoot trustworthy).mpr
      refine ⟨answers, (collect_departures_nil_iff trustworthy).mpr fun trusted row inDb => ?_⟩
      exact kept trusted row (order.mem_iff.mp inDb)
    · change (List.insertionSort _ _).length = _
      rw [List.length_insertionSort]
      exact classify_arrivals_unchanged _ _ _ answers

theorem every_order_unchanged_of_rows {rows rows' : List IndexedRow} {trustworthy : Bool}
    (known : ∀ row ∈ rows', row.scanKey ≠ "" → row ∈ rows)
    (kept : ∀ row ∈ rows, row.scanKey ≠ "" → row.hasFile = true → row ∈ rows')
    (unchanged : EveryOrderUnchanged disk rows libraryRoot trustworthy) :
    EveryOrderUnchanged disk rows' libraryRoot trustworthy := by
  rw [every_order_unchanged_iff] at unchanged ⊢
  obtain ⟨settled, present⟩ := unchanged
  constructor
  · intro entry member
    have named := (mem_disk_by_key member).2.1
    obtain ⟨⟨row, inRows, same⟩, every⟩ := settled entry member
    refine ⟨⟨row, kept row inRows (same ▸ named) (every row inRows same).1, same⟩, ?_⟩
    intro other inRows' otherSame
    exact every other (known other inRows' (otherSame ▸ named)) otherSame
  · intro trusted row inRows' named hasFile
    exact present trusted row (known row inRows' named) named hasFile

end Omnibus.Scan
